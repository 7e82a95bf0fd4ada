import DaoLedger.Chain.Raw
/-!
Classified transactions. Classification gives a transaction one type, each of its outputs one
type, and a burnt fee; everything else is kept, so that `Tx.raw` gives the chain data back.
-/
namespace DaoLedger

inductive OutputType where
  | undefined | genesisOutput | bsqOutput | btcOutput | proposalOpReturn | compReqOpReturn
  | changeParamOpReturn | issuanceCandidate | blindVoteLockStake | blindVoteOpReturn
  | voteRevealOpReturn | bondLock | lockupOpReturn | invalidOutput
deriving DecidableEq, Inhabited, Repr

def OutputType.all : List OutputType :=
  [.undefined, .genesisOutput, .bsqOutput, .btcOutput, .proposalOpReturn, .compReqOpReturn,
    .changeParamOpReturn, .issuanceCandidate, .blindVoteLockStake, .blindVoteOpReturn,
    .voteRevealOpReturn, .bondLock, .lockupOpReturn, .invalidOutput]

def OutputType.name : OutputType → String
  | .undefined => "Undefined"
  | .genesisOutput => "GenesisOutput"
  | .bsqOutput => "BsqOutput"
  | .btcOutput => "BtcOutput"
  | .proposalOpReturn => "ProposalOpReturnOutput"
  | .compReqOpReturn => "CompReqOpReturnOutput"
  | .changeParamOpReturn => "ChangeParamOpReturnOutput"
  | .issuanceCandidate => "IssuanceCandidateOutput"
  | .blindVoteLockStake => "BlindVoteLockStakeOutput"
  | .blindVoteOpReturn => "BlindVoteOpReturnOutput"
  | .voteRevealOpReturn => "VoteRevealOpReturnOutput"
  | .bondLock => "BondLock"
  | .lockupOpReturn => "LockupOpReturnOutput"
  | .invalidOutput => "InvalidOutput"

def OutputType.isOpReturn : OutputType → Bool
  | .proposalOpReturn | .compReqOpReturn | .changeParamOpReturn | .blindVoteOpReturn
  | .voteRevealOpReturn | .lockupOpReturn => true
  | _ => false

inductive TxType where
  | undefined | invalid | genesis | transferBsq | payTradeFee | proposal | compensationRequest
  | changeParam | blindVote | voteReveal | lockup
deriving DecidableEq, Inhabited, Repr

def TxType.all : List TxType :=
  [.undefined, .invalid, .genesis, .transferBsq, .payTradeFee, .proposal, .compensationRequest,
    .changeParam, .blindVote, .voteReveal, .lockup]

def TxType.name : TxType → String
  | .undefined => "Undefined"
  | .invalid => "Invalid"
  | .genesis => "Genesis"
  | .transferBsq => "TransferBsq"
  | .payTradeFee => "PayTradeFee"
  | .proposal => "Proposal"
  | .compensationRequest => "CompensationRequest"
  | .changeParam => "ChangeParam"
  | .blindVote => "BlindVote"
  | .voteReveal => "VoteReveal"
  | .lockup => "Lockup"

def TxType.requiresFee : TxType → Bool
  | .proposal | .compensationRequest | .changeParam | .blindVote => true
  | _ => false

structure Output extends RawOutput where
  type : OutputType
deriving DecidableEq, Inhabited, Repr

def Output.key (o : Output) : OutputKey := ⟨o.txId, o.index⟩

def RawOutput.undefined (o : RawOutput) : Output := ⟨o, .undefined⟩

structure Tx where
  id : TxId
  blockHeight : UInt32
  blockHash : BlockHash
  time : UInt64
  inputs : List Input
  outputs : List Output
  type : TxType
  /-- Never more than the budget of the inputs, so that a word holds it where it holds that. -/
  burntFee : Nat
deriving DecidableEq, Inhabited, Repr

def RawTx.undefined (tx : RawTx) : Tx where
  id := tx.id
  blockHeight := tx.blockHeight
  blockHash := tx.blockHash
  time := tx.time
  inputs := tx.inputs
  outputs := tx.outputs.map RawOutput.undefined
  type := .undefined
  burntFee := 0

def Tx.raw (tx : Tx) : RawTx where
  id := tx.id
  blockHeight := tx.blockHeight
  blockHash := tx.blockHash
  time := tx.time
  inputs := tx.inputs
  outputs := tx.outputs.map Output.toRawOutput

theorem RawTx.raw_undefined (tx : RawTx) : tx.undefined.raw = tx := by
  cases tx
  simp [RawTx.undefined, Tx.raw, RawOutput.undefined, Function.comp_def]

def Tx.output? (tx : Tx) (index : UInt32) : Option Output := tx.outputs[index.toNat]?

def Tx.opReturn? (tx : Tx) : Option Output := tx.outputs.find? (·.payload.isSome)

structure SpentInfo where
  blockHeight : UInt32
  txId : TxId
  inputIndex : Nat
deriving DecidableEq, Inhabited, Repr

end DaoLedger
