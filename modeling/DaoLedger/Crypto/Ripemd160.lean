import DaoLedger.Crypto.Words
/-!
The hash RIPEMD-160: two lines of eighty steps over each block, joined at its end.
-/
namespace DaoLedger.Crypto.Ripemd160

/-- A line of steps in five rounds: the word taken and the rotation in each step, and for each
round the number of the mixing function and the constant added. -/
structure Line where
  words : List Nat
  rotations : List UInt32
  functions : List Nat
  constants : List UInt32

def left : Line where
  words := [
    0, 1, 2, 3, 4, 5, 6, 7, 8, 9, 10, 11, 12, 13, 14, 15,
    7, 4, 13, 1, 10, 6, 15, 3, 12, 0, 9, 5, 2, 14, 11, 8,
    3, 10, 14, 4, 9, 15, 8, 1, 2, 7, 0, 6, 13, 11, 5, 12,
    1, 9, 11, 10, 0, 8, 12, 4, 13, 3, 7, 15, 14, 5, 6, 2,
    4, 0, 5, 9, 7, 12, 2, 10, 14, 1, 3, 8, 11, 6, 15, 13]
  rotations := [
    11, 14, 15, 12, 5, 8, 7, 9, 11, 13, 14, 15, 6, 7, 9, 8,
    7, 6, 8, 13, 11, 9, 7, 15, 7, 12, 15, 9, 11, 7, 13, 12,
    11, 13, 6, 7, 14, 9, 13, 15, 14, 8, 13, 6, 5, 12, 7, 5,
    11, 12, 14, 15, 14, 15, 9, 8, 9, 14, 5, 6, 8, 6, 5, 12,
    9, 15, 5, 11, 6, 8, 13, 12, 5, 12, 13, 14, 11, 8, 5, 6]
  functions := [0, 1, 2, 3, 4]
  constants := [0x00000000, 0x5a827999, 0x6ed9eba1, 0x8f1bbcdc, 0xa953fd4e]

def right : Line where
  words := [
    5, 14, 7, 0, 9, 2, 11, 4, 13, 6, 15, 8, 1, 10, 3, 12,
    6, 11, 3, 7, 0, 13, 5, 10, 14, 15, 8, 12, 4, 9, 1, 2,
    15, 5, 1, 3, 7, 14, 6, 9, 11, 8, 12, 2, 10, 0, 4, 13,
    8, 6, 4, 1, 3, 11, 15, 0, 5, 12, 2, 13, 9, 7, 10, 14,
    12, 15, 10, 4, 1, 5, 8, 7, 6, 2, 13, 14, 0, 3, 9, 11]
  rotations := [
    8, 9, 9, 11, 13, 15, 15, 5, 7, 7, 8, 11, 14, 14, 12, 6,
    9, 13, 15, 7, 12, 8, 9, 11, 7, 7, 12, 7, 6, 15, 13, 11,
    9, 7, 15, 11, 8, 6, 6, 14, 12, 13, 5, 14, 13, 13, 7, 5,
    15, 5, 8, 11, 14, 14, 6, 14, 6, 9, 12, 9, 12, 5, 15, 8,
    8, 5, 12, 9, 12, 5, 14, 6, 8, 13, 6, 5, 15, 13, 11, 11]
  functions := [4, 3, 2, 1, 0]
  constants := [0x50a28be6, 0x5c4dd124, 0x6d703ef3, 0x7a6d76e9, 0x00000000]

def mix : Nat → UInt32 → UInt32 → UInt32 → UInt32
  | 0, x, y, z => x ^^^ y ^^^ z
  | 1, x, y, z => (x &&& y) ||| (~~~x &&& z)
  | 2, x, y, z => (x ||| ~~~y) ^^^ z
  | 3, x, y, z => (x &&& z) ||| (y &&& ~~~z)
  | _, x, y, z => x ^^^ (y ||| ~~~z)

structure State where
  (a b c d e : UInt32)

def State.initial : State := ⟨0x67452301, 0xefcdab89, 0x98badcfe, 0x10325476, 0xc3d2e1f0⟩

def State.words (s : State) : List UInt32 := [s.a, s.b, s.c, s.d, s.e]

def Line.step (l : Line) (block : List UInt32) (s : State) (i : Nat) : State :=
  let sum := s.a + mix (l.functions.getD (i / 16) 0) s.b s.c s.d
    + block.getD (l.words.getD i 0) 0 + l.constants.getD (i / 16) 0
  ⟨s.e, rotateLeft sum (l.rotations.getD i 0) + s.e, s.b, rotateLeft s.c 10, s.d⟩

def Line.run (l : Line) (block : List UInt32) (s : State) : State :=
  (List.range 80).foldl (l.step block) s

def State.block (s : State) (bytes : List UInt8) : State :=
  let block := wordsLE bytes
  let x := left.run block s
  let y := right.run block s
  ⟨s.b + x.c + y.d, s.c + x.d + y.e, s.d + x.e + y.a, s.e + x.a + y.b, s.a + x.b + y.c⟩

def hash (text : List UInt8) : List UInt8 :=
  let final := (pieces 63 (padded (bytesLE 8) text)).foldl State.block State.initial
  final.words.flatMap fun w => bytesLE 4 w.toNat

end DaoLedger.Crypto.Ripemd160
