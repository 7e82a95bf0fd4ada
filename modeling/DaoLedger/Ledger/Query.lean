import DaoLedger.Ledger.Basic
/-!
Questions about the ledger. Lists of outputs are sorted by block height, transaction id and index,
so that every node gives the same answer.
-/
namespace DaoLedger.Ledger

/-! ### Blocks -/

def blocks (l : Ledger) : List Block := l.chain.reverse

def tip? (l : Ledger) : Option Block := l.chain.head?

def chainHeight (l : Ledger) : UInt32 :=
  match l.chain with
  | [] => l.genesis.blockHeight
  | tip :: _ => tip.height

def blockAt? (l : Ledger) (height : UInt32) : Option Block := l.chain.find? (·.height = height)

def containsBlock (l : Ledger) (height : UInt32) (hash : BlockHash) : Bool :=
  (l.blockAt? height).any (·.hash = hash)

def blocksFrom (l : Ledger) (height : UInt32) : List Block :=
  (l.chain.takeWhile fun b => height ≤ b.height).reverse

/-! ### Transactions -/

def storedTxs (l : Ledger) : List Tx := l.blocks.flatMap (·.txs)

def tx? (l : Ledger) (id : TxId) : Option Tx := l.txs[id]?

def genesisTx? (l : Ledger) : Option Tx := l.tx? l.genesis.txId

def txType? (l : Ledger) (id : TxId) : Option TxType := l.txTypes[id]?

def burntFee (l : Ledger) (id : TxId) : Nat := l.burntFees[id]?.getD 0

def feeTxs (l : Ledger) : List Tx := l.storedTxs.filter fun tx => 0 < tx.burntFee

def isIssued (l : Ledger) (id : TxId) : Bool := id ∈ l.issuances

def issuanceHeight? (l : Ledger) (id : TxId) : Option UInt32 := l.issuances[id]?

/-! ### Outputs -/

def output? (l : Ledger) (key : OutputKey) : Option Output :=
  (l.tx? key.txId).bind (·.output? key.index)

def outputExists (l : Ledger) (key : OutputKey) : Bool := key ∈ l.coins.types

def outputType? (l : Ledger) (key : OutputKey) : Option OutputType := l.coins.types[key]?

/-- Whether an output carries BSQ; an issuance candidate does so once it is issued. -/
def carriesBsq (l : Ledger) (o : Output) : Bool :=
  match o.type with
  | .undefined | .btcOutput | .invalidOutput => false
  | .issuanceCandidate => l.isIssued o.txId
  | _ => true

def isBtc (l : Ledger) (key : OutputKey) : Bool := l.outputType? key = some .btcOutput

def isUnspent (l : Ledger) (key : OutputKey) : Bool := key ∈ l.coins.unspent

def unspent? (l : Ledger) (key : OutputKey) : Option Output := l.coins.unspent[key]?

def unspentBtc? (l : Ledger) (key : OutputKey) : Option Output :=
  (l.unspent? key).filter (·.type = .btcOutput)

/-- Unknown outputs and unspent BTC may pay for ordinary transactions, coloured ones may not. -/
def spendableAsBtc (l : Ledger) (key : OutputKey) : Bool :=
  !l.outputExists key || (l.unspentBtc? key).isSome

/-- Unspent, and not locked as the stake of a blind vote. -/
def spendable (l : Ledger) (key : OutputKey) : Bool :=
  (l.unspent? key).any (·.type ≠ .blindVoteLockStake)

def spentInfo? (l : Ledger) (key : OutputKey) : Option SpentInfo := l.coins.spent[key]?

def precedes (a b : Output) : Bool :=
  (compareLex (compareOn fun o : Output => o.blockHeight)
    (compareOn Output.key) a b).isLE

def unspentOfType (l : Ledger) (type : OutputType) : List Output :=
  ((l.coins.unspent.toList.map (·.2)).filter (·.type = type)).mergeSort precedes

/-- Spent outputs as well. -/
def outputsOfType (l : Ledger) (type : OutputType) : List Output :=
  ((l.coins.types.toList.filter (·.2 = type)).filterMap fun entry => l.output? entry.1).mergeSort
    precedes

def lockedStakes (l : Ledger) : List Output := l.unspentOfType .blindVoteLockStake

def lockedBonds (l : Ledger) : List Output := l.unspentOfType .bondLock

def revealOutputs (l : Ledger) : List Output := l.outputsOfType .voteRevealOpReturn

def issuanceCandidates (l : Ledger) : List Output := l.outputsOfType .issuanceCandidate

/-- An exact sum; a word holds it as long as it stays below 2^64. -/
def totalIssued (l : Ledger) : Nat :=
  total ((l.issuanceCandidates.filter fun o => l.isIssued o.txId).map (·.amount))

/-! ### Events -/

def events (l : Ledger) : List Event := l.blocks.flatMap (·.events)

def proposalEvents (l : Ledger) : List ProposalEvent := l.events.filterMap Event.proposal?

def blindVoteEvents (l : Ledger) : List BlindVoteEvent := l.events.filterMap Event.blindVote?

/-! ### Params and cycles -/

def paramValue (l : Ledger) (param : Param) (height : Nat) : Nat :=
  param.valueAt l.paramChanges height

def cycleAt? (l : Ledger) (height : Nat) : Option Cycle := l.cycles.find? (·.contains height)

def currentCycle? (l : Ledger) : Option Cycle := l.cycleAt? l.chainHeight.toNat

def phaseAt? (l : Ledger) (height : Nat) : Option Phase :=
  (l.cycleAt? height).bind (·.phaseAt? height)

end DaoLedger.Ledger
