import DaoLedger.Crypto.Words
/-!
The authenticator Poly1305: a polynomial in a secret point, over the integers modulo 2¹³⁰ - 5.
-/
namespace DaoLedger.Crypto.Poly1305

def modulus : Nat := Nat.pow 2 130 - 5

def clamp (r : Nat) : Nat := r &&& 0x0ffffffc0ffffffc0ffffffc0fffffff

/-- Each piece of the text counts with a one above its last byte. -/
def evaluate (r : Nat) (text : List UInt8) : Nat :=
  (pieces 15 text).foldl (fun sum piece => (sum + littleEndian (piece ++ [1])) * r % modulus) 0

def tag (key text : List UInt8) : List UInt8 :=
  let r := clamp (littleEndian (key.take 16))
  bytesLE 16 (evaluate r text + littleEndian (key.drop 16))

end DaoLedger.Crypto.Poly1305
