import DaoLedger.Chain.Tx
import DaoLedger.Chain.OpReturn
import DaoLedger.Governance.Param
/-!
Classified blocks, the governance events in them, and the identity of the genesis transaction.
-/
namespace DaoLedger

/-- The configured first transaction; its outputs have to add up to the whole supply. -/
structure Genesis where
  txId : TxId
  blockHeight : UInt32
  totalSupply : UInt64
deriving DecidableEq, Inhabited, Repr

structure ParamChange where
  param : Param
  value : Nat
  activationHeight : UInt32
deriving DecidableEq, Inhabited, Repr

abbrev Hash160 := Vector UInt8 20

structure ProposalEvent where
  txId : TxId
  blockHeight : UInt32
  type : OpReturnType
  hash : Hash160
deriving DecidableEq, Inhabited, Repr

structure BlindVoteEvent where
  txId : TxId
  blockHeight : UInt32
  hash : Hash160
  stake : Nat
deriving DecidableEq, Inhabited, Repr

inductive Event where
  | paramChange (change : ParamChange)
  | proposal (event : ProposalEvent)
  | blindVote (event : BlindVoteEvent)
deriving DecidableEq, Inhabited, Repr

/-- A param change counts from its activation, other events from their block. -/
def Event.height : Event → UInt32
  | .paramChange c => c.activationHeight
  | .proposal e => e.blockHeight
  | .blindVote e => e.blockHeight

def Event.paramChange? : Event → Option ParamChange
  | .paramChange c => some c
  | _ => none

def Event.proposal? : Event → Option ProposalEvent
  | .proposal e => some e
  | _ => none

def Event.blindVote? : Event → Option BlindVoteEvent
  | .blindVote e => some e
  | _ => none

/-- A block that holds the transactions with a part in the ledger and no others. -/
structure Block where
  height : UInt32
  time : UInt64
  hash : BlockHash
  previousHash : BlockHash
  txs : List Tx
  events : List Event
deriving DecidableEq, Inhabited, Repr

def RawBlock.opened (b : RawBlock) : Block :=
  ⟨b.height, b.time, b.hash, b.previousHash, [], []⟩

def Block.raw (b : Block) : RawBlock :=
  ⟨b.height, b.time, b.hash, b.previousHash, b.txs.map Tx.raw⟩

end DaoLedger
