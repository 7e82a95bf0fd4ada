import DaoLedger.Classify.Colour
/-!
Judging the payload of a transaction: its form, the fee it burns, the phase it comes in and the
outputs that its type asks for. A refused payload makes the transaction invalid, and nothing else.
-/
namespace DaoLedger

inductive Rejection where
  | unknownType
  | unsupportedVersion (version : UInt8)
  | wrongLength (expected actual : Nat)
  | wrongFee (param : Param) (expected actual : Nat)
  | wrongPhase (expected : Phase) (height : UInt32)
  | missingIssuanceCandidate
  | missingStake
  | missingStakeUnlock
  | missingBond
  | lockTimeOutOfRange (lockTime min max : Nat)
deriving DecidableEq, Inhabited, Repr

def Rejection.message : Rejection → String
  | .unknownType => "unknown op return type"
  | .unsupportedVersion version => s!"unsupported payload version {version}"
  | .wrongLength expected actual => s!"payload length {actual}, expected {expected}"
  | .wrongFee param expected actual =>
    let name := param.name
    s!"burnt fee {actual} does not match {name} {expected}"
  | .wrongPhase expected height =>
    let name := expected.name
    s!"not in {name} phase at height {height}"
  | .missingIssuanceCandidate => "compensation request without issuance candidate output"
  | .missingStake => "blind vote without stake output"
  | .missingStakeUnlock => "vote reveal does not unlock a blind vote stake"
  | .missingBond => "lockup without bond output"
  | .lockTimeOutOfRange lockTime min max => s!"lock time {lockTime} outside [{min}, {max}]"

structure Verdict where
  txType : TxType
  outputType : OutputType
  event : Option Event
deriving DecidableEq, Repr

structure Claimed where
  txId : TxId
  payload : List UInt8
  outputs : List Output
  unlocksStake : Bool
  fee : Nat
  height : UInt32

namespace Claimed

def hasOutput (c : Claimed) (position : Nat) (type : OutputType) : Bool :=
  (c.outputs[position]?).any (·.type = type)

def hash (c : Claimed) : Hash160 := Vector.ofFn fun i => c.payload.getD (i.val + 2) 0

def lockTime (c : Claimed) : Nat := 256 * (c.payload.getD 2 0).toNat + (c.payload.getD 3 0).toNat

def demand (ok : Bool) (otherwise : Rejection) : Except Rejection Unit :=
  if ok then .ok () else .error otherwise

def demandVersion (c : Claimed) : Except Rejection Unit :=
  match c.payload[1]? with
  | none => .error (.wrongLength 2 c.payload.length)
  | some v => demand (v = OpReturn.version) (.unsupportedVersion v)

def demandLength (c : Claimed) (expected : Nat) : Except Rejection Unit :=
  demand (c.payload.length = expected) (.wrongLength expected c.payload.length)

def demandFee (c : Claimed) (l : Ledger) (param : Param) : Except Rejection Unit :=
  let expected := l.paramValue param c.height.toNat
  demand (c.fee = expected) (.wrongFee param expected c.fee)

def demandPhase (c : Claimed) (l : Ledger) (phase : Phase) : Except Rejection Unit :=
  demand (l.phaseAt? c.height.toNat = some phase) (.wrongPhase phase c.height)

/-- Proposals, compensation requests and param changes share one form and one fee. -/
def proposalEvent (c : Claimed) (l : Ledger) (type : OpReturnType) : Except Rejection Event := do
  c.demandLength OpReturn.hashPayloadLength
  c.demandFee l .proposalFee
  c.demandPhase l .proposal
  return .proposal ⟨c.txId, c.height, type, c.hash⟩

def asProposal (c : Claimed) (l : Ledger) : Except Rejection Verdict := do
  let event ← c.proposalEvent l .proposal
  return ⟨.proposal, .proposalOpReturn, some event⟩

def asCompensationRequest (c : Claimed) (l : Ledger) : Except Rejection Verdict := do
  let event ← c.proposalEvent l .compensationRequest
  demand (c.hasOutput 1 .issuanceCandidate) .missingIssuanceCandidate
  return ⟨.compensationRequest, .compReqOpReturn, some event⟩

def asChangeParam (c : Claimed) (l : Ledger) : Except Rejection Verdict := do
  let event ← c.proposalEvent l .changeParam
  return ⟨.changeParam, .changeParamOpReturn, some event⟩

def asBlindVote (c : Claimed) (l : Ledger) : Except Rejection Verdict := do
  c.demandLength OpReturn.hashPayloadLength
  c.demandFee l .blindVoteFee
  demand (c.hasOutput 0 .blindVoteLockStake) .missingStake
  c.demandPhase l .blindVote
  let stake := (c.outputs[0]?.map (·.amount)).getD 0
  return ⟨.blindVote, .blindVoteOpReturn, some (.blindVote ⟨c.txId, c.height, c.hash, stake⟩)⟩

def asVoteReveal (c : Claimed) (l : Ledger) : Except Rejection Verdict := do
  c.demandLength OpReturn.voteRevealLength
  demand c.unlocksStake .missingStakeUnlock
  c.demandPhase l .voteReveal
  return ⟨.voteReveal, .voteRevealOpReturn, none⟩

def asLockup (c : Claimed) (l : Ledger) : Except Rejection Verdict := do
  c.demandLength OpReturn.lockupLength
  demand (c.hasOutput 0 .bondLock) .missingBond
  let min := l.paramValue .lockTimeMin c.height.toNat
  let max := l.paramValue .lockTimeMax c.height.toNat
  demand (min ≤ c.lockTime && c.lockTime ≤ max) (.lockTimeOutOfRange c.lockTime min max)
  return ⟨.lockup, .lockupOpReturn, none⟩

def judge (c : Claimed) (l : Ledger) : Except Rejection Verdict :=
  match OpReturnType.ofPayload? c.payload with
  | none => .error .unknownType
  | some type => do
    c.demandVersion
    match type with
    | .proposal => c.asProposal l
    | .compensationRequest => c.asCompensationRequest l
    | .changeParam => c.asChangeParam l
    | .blindVote => c.asBlindVote l
    | .voteReveal => c.asVoteReveal l
    | .lockup => c.asLockup l

end Claimed

end DaoLedger
