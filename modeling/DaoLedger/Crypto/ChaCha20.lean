import DaoLedger.Crypto.Words
/-!
The stream cipher ChaCha20 with a nonce of twelve bytes.
-/
namespace DaoLedger.Crypto.ChaCha20

abbrev State := Vector UInt32 16

def quarterRound (s : State) (a b c d : Fin 16) : State :=
  let s := s.set a (s[a] + s[b])
  let s := s.set d (rotateLeft (s[d] ^^^ s[a]) 16)
  let s := s.set c (s[c] + s[d])
  let s := s.set b (rotateLeft (s[b] ^^^ s[c]) 12)
  let s := s.set a (s[a] + s[b])
  let s := s.set d (rotateLeft (s[d] ^^^ s[a]) 8)
  let s := s.set c (s[c] + s[d])
  s.set b (rotateLeft (s[b] ^^^ s[c]) 7)

def doubleRound (s : State) : State :=
  let s := quarterRound s 0 4 8 12
  let s := quarterRound s 1 5 9 13
  let s := quarterRound s 2 6 10 14
  let s := quarterRound s 3 7 11 15
  let s := quarterRound s 0 5 10 15
  let s := quarterRound s 1 6 11 12
  let s := quarterRound s 2 7 8 13
  quarterRound s 3 4 9 14

def constants : List UInt32 := [0x61707865, 0x3320646e, 0x79622d32, 0x6b206574]

def start (key nonce : List UInt8) (counter : Nat) : State :=
  let words := constants ++ wordsLE key ++ UInt32.ofNat counter :: wordsLE nonce
  Vector.ofFn fun i => words.getD i.val 0

def rounds : Nat → State → State
  | 0, s => s
  | n + 1, s => rounds n (doubleRound s)

def block (key nonce : List UInt8) (counter : Nat) : List UInt8 :=
  let s := start key nonce counter
  let mixed := rounds 10 s
  (List.zipWith (· + ·) mixed.toList s.toList).flatMap fun w => bytesLE 4 w.toNat

def applyFrom (key nonce : List UInt8) : Nat → List (List UInt8) → List UInt8
  | _, [] => []
  | counter, text :: texts =>
    List.zipWith (· ^^^ ·) text (block key nonce counter)
      ++ applyFrom key nonce (counter + 1) texts

def apply (key nonce : List UInt8) (counter : Nat) (text : List UInt8) : List UInt8 :=
  applyFrom key nonce counter (pieces 63 text)

end DaoLedger.Crypto.ChaCha20
