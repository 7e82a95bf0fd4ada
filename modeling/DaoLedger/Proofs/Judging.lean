import DaoLedger.Classify.Payload
/-!
Which payloads are accepted. Main statement: judging accepts a payload just when it names a type, has
the one version and meets what its type asks for; the verdict then depends on the type alone.
-/
namespace DaoLedger

theorem bind_eq_ok {ε α β : Type} {x : Except ε α} {f : α → Except ε β} {b : β} :
    x >>= f = .ok b ↔ ∃ a, x = .ok a ∧ f a = .ok b := by
  cases x <;> simp [bind, Except.bind]

theorem pure_eq_ok {ε α : Type} {a b : α} : (pure a : Except ε α) = .ok b ↔ b = a := by
  simp [pure, Except.pure, eq_comm]

namespace OpReturnType

theorem ofByte?_eq_some {b : UInt8} {t : OpReturnType} : ofByte? b = some t ↔ b = t.byte := by
  constructor
  · intro h
    have hbyte := List.find?_some h
    simp only [beq_iff_eq] at hbyte
    exact hbyte.symm
  · rintro rfl
    exact ofByte?_byte t

theorem ofPayload?_eq_some {payload : List UInt8} {t : OpReturnType} :
    ofPayload? payload = some t ↔ payload[0]? = some t.byte := by
  cases payload with
  | nil => simp [ofPayload?]
  | cons b rest => simp [ofPayload?, ofByte?_eq_some]

def txType : OpReturnType → TxType
  | .proposal => .proposal
  | .compensationRequest => .compensationRequest
  | .blindVote => .blindVote
  | .voteReveal => .voteReveal
  | .changeParam => .changeParam
  | .lockup => .lockup

def outputType : OpReturnType → OutputType
  | .proposal => .proposalOpReturn
  | .compensationRequest => .compReqOpReturn
  | .blindVote => .blindVoteOpReturn
  | .voteReveal => .voteRevealOpReturn
  | .changeParam => .changeParamOpReturn
  | .lockup => .lockupOpReturn

end OpReturnType

namespace Claimed
variable {c : Claimed} {l : Ledger} {v : Verdict}

def Proposes (c : Claimed) (l : Ledger) : Prop :=
  c.payload.length = OpReturn.hashPayloadLength ∧
    c.fee = l.paramValue .proposalFee c.height.toNat ∧
    l.phaseAt? c.height.toNat = some .proposal

/-- What a type asks for besides the version. -/
def Meets (c : Claimed) (l : Ledger) : OpReturnType → Prop
  | .proposal | .changeParam => c.Proposes l
  | .compensationRequest => c.Proposes l ∧ c.hasOutput 1 .issuanceCandidate
  | .blindVote =>
    c.payload.length = OpReturn.hashPayloadLength ∧
      c.fee = l.paramValue .blindVoteFee c.height.toNat ∧ c.hasOutput 0 .blindVoteLockStake ∧
      l.phaseAt? c.height.toNat = some .blindVote
  | .voteReveal =>
    c.payload.length = OpReturn.voteRevealLength ∧ c.unlocksStake ∧
      l.phaseAt? c.height.toNat = some .voteReveal
  | .lockup =>
    c.payload.length = OpReturn.lockupLength ∧ c.hasOutput 0 .bondLock ∧
      l.paramValue .lockTimeMin c.height.toNat ≤ c.lockTime ∧
      c.lockTime ≤ l.paramValue .lockTimeMax c.height.toNat

def event? (c : Claimed) : OpReturnType → Option Event
  | .blindVote =>
    some (.blindVote ⟨c.txId, c.height, c.hash, (c.outputs[0]?.map (·.amount)).getD 0⟩)
  | .voteReveal | .lockup => none
  | type => some (.proposal ⟨c.txId, c.height, type, c.hash⟩)

def verdict (c : Claimed) (type : OpReturnType) : Verdict :=
  ⟨type.txType, type.outputType, c.event? type⟩

theorem demand_eq_ok {ok : Bool} {r : Rejection} {u : Unit} : demand ok r = .ok u ↔ ok = true := by
  unfold demand
  cases ok <;> simp

theorem demandVersion_eq_ok {u : Unit} :
    c.demandVersion = .ok u ↔ c.payload[1]? = some OpReturn.version := by
  unfold demandVersion
  cases c.payload[1]? <;> simp [demand_eq_ok]

theorem proposalEvent_eq_ok {type : OpReturnType} {event : Event} :
    c.proposalEvent l type = .ok event ↔
      c.Proposes l ∧ event = .proposal ⟨c.txId, c.height, type, c.hash⟩ := by
  simp only [proposalEvent, demandLength, demandFee, demandPhase, bind_eq_ok, demand_eq_ok,
    pure_eq_ok, decide_eq_true_eq, exists_const, Proposes, and_assoc]

theorem asProposal_eq_ok :
    c.asProposal l = .ok v ↔ c.Meets l .proposal ∧ v = c.verdict .proposal := by
  simp only [asProposal, bind_eq_ok, proposalEvent_eq_ok, pure_eq_ok, and_assoc, exists_and_left,
    exists_eq_left]
  rfl

theorem asChangeParam_eq_ok :
    c.asChangeParam l = .ok v ↔ c.Meets l .changeParam ∧ v = c.verdict .changeParam := by
  simp only [asChangeParam, bind_eq_ok, proposalEvent_eq_ok, pure_eq_ok, and_assoc,
    exists_and_left, exists_eq_left]
  rfl

theorem asCompensationRequest_eq_ok :
    c.asCompensationRequest l = .ok v ↔
      c.Meets l .compensationRequest ∧ v = c.verdict .compensationRequest := by
  simp only [asCompensationRequest, bind_eq_ok, proposalEvent_eq_ok, demand_eq_ok, pure_eq_ok,
    and_assoc, exists_and_left, exists_eq_left, exists_const, Meets]
  rfl

theorem asBlindVote_eq_ok :
    c.asBlindVote l = .ok v ↔ c.Meets l .blindVote ∧ v = c.verdict .blindVote := by
  simp only [asBlindVote, demandLength, demandFee, demandPhase, bind_eq_ok, demand_eq_ok,
    pure_eq_ok, decide_eq_true_eq, exists_const, and_assoc, Meets]
  rfl

theorem asVoteReveal_eq_ok :
    c.asVoteReveal l = .ok v ↔ c.Meets l .voteReveal ∧ v = c.verdict .voteReveal := by
  simp only [asVoteReveal, demandLength, demandPhase, bind_eq_ok, demand_eq_ok, pure_eq_ok,
    decide_eq_true_eq, exists_const, and_assoc, Meets]
  rfl

theorem asLockup_eq_ok : c.asLockup l = .ok v ↔ c.Meets l .lockup ∧ v = c.verdict .lockup := by
  simp only [asLockup, demandLength, bind_eq_ok, demand_eq_ok, pure_eq_ok, Bool.and_eq_true,
    decide_eq_true_eq, exists_const, and_assoc, Meets]
  rfl

theorem judge_eq_ok :
    c.judge l = .ok v ↔ ∃ type, OpReturnType.ofPayload? c.payload = some type ∧
      c.payload[1]? = some OpReturn.version ∧ c.Meets l type ∧ v = c.verdict type := by
  unfold judge
  cases OpReturnType.ofPayload? c.payload with
  | none => simp
  | some type =>
    simp only [bind_eq_ok, demandVersion_eq_ok, exists_const, Option.some.injEq, exists_eq_left']
    cases type with
    | proposal => rw [asProposal_eq_ok]
    | compensationRequest => rw [asCompensationRequest_eq_ok]
    | changeParam => rw [asChangeParam_eq_ok]
    | blindVote => rw [asBlindVote_eq_ok]
    | voteReveal => rw [asVoteReveal_eq_ok]
    | lockup => rw [asLockup_eq_ok]

end Claimed

end DaoLedger
