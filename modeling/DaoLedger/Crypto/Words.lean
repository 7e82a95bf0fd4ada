/-!
Bytes and machine words: the two byte orders, rotations, and cutting a text into pieces.
-/
namespace DaoLedger.Crypto

def rotateLeft (x : UInt32) (n : UInt32) : UInt32 := (x <<< n) ||| (x >>> (32 - n))

def rotateRight (x : UInt32) (n : UInt32) : UInt32 := (x >>> n) ||| (x <<< (32 - n))

def littleEndian : List UInt8 → Nat
  | [] => 0
  | b :: bs => b.toNat + 256 * littleEndian bs

def bytesLE : Nat → Nat → List UInt8
  | 0, _ => []
  | k + 1, n => UInt8.ofNat n :: bytesLE k (n / 256)

def bytesBE (k n : Nat) : List UInt8 := (bytesLE k n).reverse

def bigEndian (bs : List UInt8) : Nat := littleEndian bs.reverse

/-- The list in pieces of `n + 1`, the last one perhaps shorter. -/
def pieces {α : Type} (n : Nat) : List α → List (List α)
  | [] => []
  | a :: as => (a :: as.take n) :: pieces n (as.drop n)
termination_by as => as.length
decreasing_by simp only [List.length_drop, List.length_cons]; omega

theorem length_bytesLE (k n : Nat) : (bytesLE k n).length = k := by
  induction k generalizing n with
  | zero => rfl
  | succ k ih => simp [bytesLE, ih]

theorem littleEndian_bytesLE (k n : Nat) (h : n < Nat.pow 256 k) :
    littleEndian (bytesLE k n) = n := by
  induction k generalizing n with
  | zero =>
    have hn : n = 0 := Nat.lt_one_iff.1 h
    simp [bytesLE, littleEndian, hn]
  | succ k ih =>
    have hk : n / 256 < Nat.pow 256 k := Nat.div_lt_of_lt_mul (by rw [Nat.mul_comm]; exact h)
    simp only [bytesLE, littleEndian, ih _ hk, UInt8.toNat_ofNat']
    omega

def wordsLE (bs : List UInt8) : List UInt32 :=
  (pieces 3 bs).map fun w => UInt32.ofNat (littleEndian w)

def wordsBE (bs : List UInt8) : List UInt32 :=
  (pieces 3 bs).map fun w => UInt32.ofNat (bigEndian w)

/-- The padding of a hashed text: a bit, zeros, and room for the length in eight bytes, so that
blocks of 64 bytes are filled. -/
def padded (length : Nat → List UInt8) (text : List UInt8) : List UInt8 :=
  text ++ 0x80 :: List.replicate ((119 - text.length % 64) % 64) 0 ++ length (8 * text.length)

end DaoLedger.Crypto
