import DaoLedger.Crypto.ChaCha20
import DaoLedger.Crypto.Poly1305
/-!
Texts sealed with a secret key: a nonce, the text encrypted with ChaCha20, and a tag of Poly1305.
The same key may seal several texts, each under a nonce of its own.
-/
namespace DaoLedger.Crypto

/-- Why a text is not sealed or opened. Sealing fails only for a key of another length: the nonce is
drawn by the caller, and texts stay below the 2^38 - 64 bytes that the cipher can take. -/
inductive SealError where
  | invalidKeyLength (expected actual : Nat)
  | ciphertextTooShort
  | decryption
deriving DecidableEq, Inhabited, Repr

def SealError.message : SealError → String
  | .invalidKeyLength expected actual => s!"invalid key length: expected {expected}, got {actual}"
  | .ciphertextTooShort => "ciphertext too short"
  | .decryption => "decryption failed: authentication check failed"

def keyLength : Nat := 32

def nonceLength : Nat := 12

def tagLength : Nat := 16

abbrev SecretKey := Vector UInt8 32

abbrev Nonce := Vector UInt8 12

namespace SealedBox

def zerosTo16 (bs : List UInt8) : List UInt8 := List.replicate ((16 - bs.length % 16) % 16) 0

/-- The text that the tag covers: the ciphertext, filled up, and the two lengths. -/
def covered (cipher : List UInt8) : List UInt8 :=
  cipher ++ zerosTo16 cipher ++ bytesLE 8 0 ++ bytesLE 8 cipher.length

def tag (key nonce cipher : List UInt8) : List UInt8 :=
  Poly1305.tag ((ChaCha20.block key nonce 0).take 32) (covered cipher)

def lock (key nonce text : List UInt8) : List UInt8 :=
  let cipher := ChaCha20.apply key nonce 1 text
  cipher ++ tag key nonce cipher

def unlock? (key nonce locked : List UInt8) : Option (List UInt8) :=
  if locked.length < tagLength then none
  else
    let cipher := locked.take (locked.length - tagLength)
    let given := locked.drop (locked.length - tagLength)
    if given = tag key nonce cipher then some (ChaCha20.apply key nonce 1 cipher) else none

end SealedBox

def demandKey (key : List UInt8) : Except SealError Unit :=
  if key.length = keyLength then .ok () else .error (.invalidKeyLength keyLength key.length)

def encrypt (nonce : Nonce) (text key : List UInt8) : Except SealError (List UInt8) := do
  demandKey key
  return nonce.toList ++ SealedBox.lock key nonce.toList text

def decrypt (sealedText key : List UInt8) : Except SealError (List UInt8) := do
  demandKey key
  if sealedText.length < nonceLength then .error .ciphertextTooShort
  else
    match SealedBox.unlock? key (sealedText.take nonceLength) (sealedText.drop nonceLength) with
    | some text => .ok text
    | none => .error .decryption

end DaoLedger.Crypto
