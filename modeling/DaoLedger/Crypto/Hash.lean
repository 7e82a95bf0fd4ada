import DaoLedger.Chain.Block
import DaoLedger.Crypto.Sha256
import DaoLedger.Crypto.Ripemd160
/-!
The hash by which payloads are named: RIPEMD-160 of SHA-256.
-/
namespace DaoLedger.Crypto

def hash160 (text : List UInt8) : Hash160 :=
  let bytes := Ripemd160.hash (Sha256.hash text)
  Vector.ofFn fun i => bytes.getD i.val 0

end DaoLedger.Crypto
