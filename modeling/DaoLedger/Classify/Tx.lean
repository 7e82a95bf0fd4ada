import DaoLedger.Classify.Genesis
import DaoLedger.Classify.Payload
/-!
Classifying a transaction against the ledger. A transaction without BSQ among its inputs has no
part in the ledger and stays undefined.
-/
namespace DaoLedger

structure Classified where
  tx : Tx
  event : Option Event
  rejection : Option Rejection
deriving DecidableEq, Repr

def Classified.isBsq (c : Classified) : Bool := c.tx.type ≠ .undefined

def RawTx.placed (tx : RawTx) (height : UInt32) : RawTx :=
  { tx with
    blockHeight := height
    outputs := tx.outputs.map fun o => { o with blockHeight := height } }

def retype (type : OutputType) (outputs : List Output) (position : Nat) : List Output :=
  outputs.modify position fun o => { o with type }

def RawTx.decided (tx : RawTx) (outputs : List Output) (type : TxType) (fee : Nat) : Tx :=
  { tx.undefined with outputs, type, burntFee := fee }

def Ledger.classifySpending (l : Ledger) (tx : RawTx) : Classified :=
  let candidate? := Candidate.firstFrom? 0 tx.outputs
  let coloured := (Palette.of candidate?).colour true (l.inputBudget tx.inputs) 0 tx.outputs
  match candidate? with
  | none =>
    let type := if coloured.left = 0 then TxType.transferBsq else .payTradeFee
    ⟨tx.decided coloured.outputs type coloured.left, none, none⟩
  | some candidate =>
    let claimed : Claimed :=
      ⟨tx.id, candidate.payload, coloured.outputs, l.unlocksStake tx.inputs, coloured.left,
        tx.blockHeight⟩
    match claimed.judge l with
    | .ok v =>
      let outputs := retype v.outputType coloured.outputs candidate.position
      ⟨tx.decided outputs v.txType coloured.left, v.event, none⟩
    | .error rejection =>
      let outputs := retype .invalidOutput coloured.outputs candidate.position
      ⟨tx.decided (outputs.map Output.plain) .invalid coloured.left, none, some rejection⟩

/-- Classifies a transaction of a block at `height`. The genesis transaction keeps the height that
it claims. -/
def Ledger.classify (l : Ledger) (tx : RawTx) (height : UInt32) :
    Except GenesisFault Classified :=
  match l.genesis.find? tx with
  | .error e => .error e
  | .ok (some genesis) => .ok ⟨genesis, none, none⟩
  | .ok none =>
    let placed := tx.placed height
    if l.hasBsqInput placed.inputs then .ok (l.classifySpending placed)
    else .ok ⟨placed.undefined, none, none⟩

end DaoLedger
