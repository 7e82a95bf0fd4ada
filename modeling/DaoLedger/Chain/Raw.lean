import DaoLedger.Chain.Id
/-!
Chain data before classification, as the base chain delivers it and as peers exchange it.
-/
namespace DaoLedger

structure LockingScript where
  kind : String
  hex : String
  addresses : List String
deriving DecidableEq, Inhabited, Repr

structure Input where
  source : OutputKey
  pubKey : Option String
deriving DecidableEq, Inhabited, Repr

structure RawOutput where
  index : UInt32
  value : UInt64
  txId : TxId
  script : Option LockingScript
  address : Option String
  payload : Option (List UInt8)
  blockHeight : UInt32
deriving DecidableEq, Inhabited, Repr

structure RawTx where
  id : TxId
  blockHeight : UInt32
  blockHash : BlockHash
  time : UInt64
  inputs : List Input
  outputs : List RawOutput
deriving DecidableEq, Inhabited, Repr

structure RawBlock where
  height : UInt32
  time : UInt64
  hash : BlockHash
  previousHash : BlockHash
  txs : List RawTx
deriving DecidableEq, Inhabited, Repr

def RawOutput.isOpReturn (o : RawOutput) : Bool := o.payload.isSome

def RawOutput.amount (o : RawOutput) : Nat := o.value.toNat

/-- The sum of amounts, which has no upper limit. -/
def total : List Nat → Nat
  | [] => 0
  | amount :: amounts => amount + total amounts

def RawTx.outputSum (tx : RawTx) : Nat := total (tx.outputs.map RawOutput.amount)

end DaoLedger
