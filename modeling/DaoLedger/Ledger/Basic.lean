import DaoLedger.Ledger.Coins
import DaoLedger.Ledger.Result
import DaoLedger.Governance.Schedule
/-!
The ledger: the classified blocks and the indices over them. Five operations write it: opening a
block on the tip, adding a transaction or an event to the tip, recording an issuance, and
removing the tip.
-/
namespace DaoLedger

structure Ledger where
  genesis : Genesis
  /-- The tip stands first. -/
  chain : List Block
  txs : Map TxId Tx
  coins : Coins
  txTypes : Map TxId TxType
  burntFees : Map TxId Nat
  /-- An exact sum; a word holds it as long as it stays below 2^64. -/
  totalBurnt : Nat
  issuances : Map TxId UInt32
  /-- The newest stands first. -/
  cycles : List Cycle
  paramChanges : List ParamChange

inductive LedgerError where
  | beforeGenesis (height genesisHeight : UInt32)
  | heightNotIncreasing (height chainHeight : UInt32)
  | notConnecting (height : UInt32) (expected actual : BlockHash)
  | noOpenBlock
  | heightMismatch (txId : TxId) (txHeight blockHeight : UInt32)
  | duplicateTx (txId : TxId)
  | invalidIssuance (txId : TxId)
  | paramOutOfRange (param : Param) (value max : Nat)
  | notFound (key : String)
deriving DecidableEq, Inhabited, Repr

def LedgerError.message : LedgerError → String
  | .beforeGenesis height genesisHeight =>
    s!"block {height} is below the genesis height {genesisHeight}"
  | .heightNotIncreasing height chainHeight =>
    s!"block {height} does not extend chain height {chainHeight}"
  | .notConnecting height expected actual =>
    s!"block {height} does not connect: expected previous hash {expected}, got {actual}"
  | .noOpenBlock => "no block is open for writing"
  | .heightMismatch txId txHeight blockHeight =>
    s!"tx {txId} has height {txHeight} but the open block is {blockHeight}"
  | .duplicateTx txId => s!"duplicate tx: {txId}"
  | .invalidIssuance txId => s!"tx {txId} is not a compensation request and cannot be issued"
  | .paramOutOfRange param value max =>
    let name := param.name
    s!"{name} value {value} exceeds the maximum of {max}"
  | .notFound key => s!"key not found: {key}"

namespace Ledger

def new (genesis : Genesis) : Ledger where
  genesis := genesis
  chain := []
  txs := ∅
  coins := .empty
  txTypes := ∅
  burntFees := ∅
  totalBurnt := 0
  issuances := ∅
  cycles := []
  paramChanges := []

/-! ### Opening a block -/

def opened (l : Ledger) (raw : RawBlock) : Ledger :=
  { l with
    chain := raw.opened :: l.chain
    cycles := Cycle.cover l.paramChanges raw.height.toNat
      (Cycle.nextStart l.genesis.blockHeight.toNat l.cycles) l.cycles }

def misfit? (l : Ledger) (raw : RawBlock) : Option LedgerError :=
  if raw.height < l.genesis.blockHeight then
    some (.beforeGenesis raw.height l.genesis.blockHeight)
  else
    match l.chain with
    | [] => none
    | tip :: _ =>
      if raw.height ≤ tip.height then some (.heightNotIncreasing raw.height tip.height)
      else if raw.previousHash ≠ tip.hash then
        some (.notConnecting raw.height tip.hash raw.previousHash)
      else none

/-- Whether opening a block has no end, its cycles being opened without ever covering it. -/
def endless (l : Ledger) (raw : RawBlock) : Bool :=
  Cycle.endless l.paramChanges l.genesis.blockHeight.toNat raw.height.toNat l.cycles

def start (l : Ledger) (raw : RawBlock) : Result LedgerError Ledger :=
  match l.misfit? raw with
  | some e => .error e
  | none => if l.endless raw then .never else .ok (l.opened raw)

/-! ### Writing to the tip -/

def entered (l : Ledger) (tx : Tx) (blockHeight : UInt32) : Ledger :=
  { l with
    txs := l.txs.insert tx.id tx
    coins := (l.coins.spendAll blockHeight tx.id 0 tx.inputs).createAll tx.outputs
    txTypes := l.txTypes.insert tx.id tx.type
    burntFees := if 0 < tx.burntFee then l.burntFees.insert tx.id tx.burntFee else l.burntFees
    totalBurnt := l.totalBurnt + tx.burntFee }

def addTx (l : Ledger) (tx : Tx) : Except LedgerError Ledger :=
  match l.chain with
  | [] => .error .noOpenBlock
  | tip :: older =>
    if tx.blockHeight ≠ tip.height then
      .error (.heightMismatch tx.id tx.blockHeight tip.height)
    else if tx.id ∈ l.txs then .error (.duplicateTx tx.id)
    else
      .ok { l.entered tx tip.height with
            chain := { tip with txs := tip.txs ++ [tx] } :: older }

def outOfRange? : Event → Option LedgerError
  | .paramChange c => c.param.max?.bind fun max =>
    if max < c.value then some (.paramOutOfRange c.param c.value max) else none
  | _ => none

def addEvent (l : Ledger) (event : Event) : Except LedgerError Ledger :=
  match outOfRange? event, l.chain with
  | some e, _ => .error e
  | none, [] => .error .noOpenBlock
  | none, tip :: older =>
    .ok { l with
          chain := { tip with events := tip.events ++ [event] } :: older
          paramChanges := l.paramChanges ++ event.paramChange?.toList }

/-- Records that a vote issued a compensation request: from now on its issuance candidate
carries BSQ. -/
def addIssuance (l : Ledger) (txId : TxId) (height : UInt32) : Except LedgerError Ledger :=
  match l.txTypes[txId]? with
  | some .compensationRequest => .ok { l with issuances := l.issuances.insert txId height }
  | some _ => .error (.invalidIssuance txId)
  | none => .error (.notFound txId.text)

/-! ### Removing the tip -/

/-- The output that a transaction of `block` spent, in the block itself or before it. -/
def sourceOutput? (l : Ledger) (block : Block) (key : OutputKey) : Option Output :=
  ((block.txs.find? (·.id = key.txId)).or l.txs[key.txId]?).bind (·.output? key.index)

def withdrawn (l : Ledger) (block : Block) (tx : Tx) : Ledger :=
  { l with
    coins := (l.coins.forgetAll tx.outputs).unspendAll (l.sourceOutput? block) tx.id 0 tx.inputs
    txTypes := l.txTypes.erase tx.id
    burntFees := l.burntFees.erase tx.id
    totalBurnt := l.totalBurnt - l.burntFees[tx.id]?.getD 0
    txs := l.txs.erase tx.id
    issuances := l.issuances.erase tx.id }

def withdrawAll (l : Ledger) (block : Block) : Ledger :=
  block.txs.foldr (fun tx l => l.withdrawn block tx) l

/-- Cycles that start above the new tip are dropped, all of them if no block is left. -/
def cyclesBelow (older : List Block) (cycles : List Cycle) : List Cycle :=
  match older with
  | [] => []
  | tip :: _ => cycles.filter fun c => c.firstBlock ≤ tip.height.toNat

def removeTip (l : Ledger) : Option (Block × Ledger) :=
  match l.chain with
  | [] => none
  | block :: older =>
    let l := { l with chain := older }.withdrawAll block
    let changes := block.events.filterMap Event.paramChange?
    some (block, { l with
      paramChanges := l.paramChanges.filter fun c => c ∉ changes
      issuances := l.issuances.filter fun _ h => h < block.height
      cycles := cyclesBelow older l.cycles })

end Ledger

end DaoLedger
