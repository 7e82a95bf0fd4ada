import DaoLedger.Classify.Block
import DaoLedger.Proofs.Colouring
/-!
The grammar of the transactions that spend BSQ. Main statement: such a transaction has a type just
when it meets the rule of that type, and it is invalid just when it meets none.
-/
namespace DaoLedger

def RawTx.payload? (tx : RawTx) : Option (List UInt8) := tx.outputs.findSome? (·.payload)

/-- The payload has a length, begins with a type byte and has the version. -/
def RawTx.HasForm (tx : RawTx) (length : Nat) (type : UInt8) : Prop :=
  ∃ payload, tx.payload? = some payload ∧
    payload.length = length ∧ payload[0]? = some type ∧ payload[1]? = some 1

namespace Ledger

def Pays (l : Ledger) (tx : RawTx) (position : Nat) : Prop :=
  ∃ o, tx.outputs[position]? = some o ∧ o.payload = none ∧
    Affords (l.inputBudget tx.inputs) tx.outputs position o

/-- What the inputs carry less the largest sum of first outputs that it covers. -/
def Burns (l : Ledger) (tx : RawTx) (fee : Nat) : Prop :=
  ∃ i, fee + valueBefore tx.outputs i = l.inputBudget tx.inputs ∧
    ∀ j, valueBefore tx.outputs j ≤ l.inputBudget tx.inputs →
      valueBefore tx.outputs j ≤ valueBefore tx.outputs i

def Proposes (l : Ledger) (tx : RawTx) (height : UInt32) (type : UInt8) : Prop :=
  tx.HasForm 22 type ∧ l.Burns tx (l.paramValue .proposalFee height.toNat) ∧
    l.phaseAt? height.toNat = some .proposal

/-- The rules. No transaction that spends BSQ is genesis or undefined, and invalid ones meet none
of the rules. -/
def Admits (l : Ledger) (tx : RawTx) (height : UInt32) : TxType → Prop
  | .transferBsq => tx.payload? = none ∧ l.Burns tx 0
  | .payTradeFee => tx.payload? = none ∧ ∃ fee, 0 < fee ∧ l.Burns tx fee
  | .proposal => l.Proposes tx height 0x10
  | .changeParam => l.Proposes tx height 0x14
  | .compensationRequest =>
    l.Proposes tx height 0x11 ∧
      ∃ o, tx.outputs[1]? = some o ∧ o.payload = none ∧ ¬l.Pays tx 1
  | .blindVote =>
    tx.HasForm 22 0x12 ∧ l.Burns tx (l.paramValue .blindVoteFee height.toNat) ∧ l.Pays tx 0 ∧
      l.phaseAt? height.toNat = some .blindVote
  | .voteReveal =>
    tx.HasForm 54 0x13 ∧
      (∃ input o, tx.inputs.head? = some input ∧ l.unspent? input.source = some o ∧
        o.type = .blindVoteLockStake) ∧
      l.phaseAt? height.toNat = some .voteReveal
  | .lockup =>
    l.Pays tx 0 ∧ ∃ high low : UInt8, tx.payload? = some [0x15, 1, high, low] ∧
      l.paramValue .lockTimeMin height.toNat ≤ 256 * high.toNat + low.toNat ∧
      256 * high.toNat + low.toNat ≤ l.paramValue .lockTimeMax height.toNat
  | .genesis | .undefined | .invalid => False

end Ledger

/-! ### The first payload -/

theorem Candidate.payload_firstFrom? (i : Nat) (outputs : List RawOutput) :
    (firstFrom? i outputs).map (·.payload) = outputs.findSome? (·.payload) := by
  induction outputs generalizing i with
  | nil => rfl
  | cons o outputs ih =>
    unfold firstFrom?
    cases h : o.payload with
    | none => simpa [h] using ih (i + 1)
    | some payload => simp [h]

theorem RawTx.payload?_placed (tx : RawTx) (height : UInt32) :
    (tx.placed height).payload? = tx.payload? := by
  rw [payload?, placed, List.findSome?_map]
  rfl

/-! ### Outputs and inputs -/

theorem valueBefore_placed (tx : RawTx) (height : UInt32) (i : Nat) :
    valueBefore (tx.placed height).outputs i = valueBefore tx.outputs i := by
  rw [valueBefore, RawTx.placed, ← List.map_take, List.filter_map, List.map_map]
  rfl

theorem affords_placed {tx : RawTx} {height : UInt32} {budget i : Nat} {o : RawOutput} :
    Affords budget (tx.placed height).outputs i o ↔ Affords budget tx.outputs i o := by
  rw [Affords, valueBefore_placed, Affords]

namespace Ledger
variable {l : Ledger} {tx : RawTx}

theorem Burns.unique {m n : Nat} (hm : l.Burns tx m) (hn : l.Burns tx n) : m = n := by
  obtain ⟨i, hi, himax⟩ := hm
  obtain ⟨j, hj, hjmax⟩ := hn
  have hij := himax j (by omega)
  have hji := hjmax i (by omega)
  omega

theorem coloured_placed (l : Ledger) (tx : RawTx) (height : UInt32) (p : Palette) :
    let coloured := p.colour true (l.inputBudget tx.inputs) 0 (tx.placed height).outputs
    l.Burns tx coloured.left ∧ ∀ i, coloured.outputs[i]?.map (·.type) =
      tx.outputs[i]?.map (p.paint (l.inputBudget tx.inputs) tx.outputs i) := by
  constructor
  · obtain ⟨i, hleft, hmax⟩ := p.left_colour (l.inputBudget tx.inputs) 0 (tx.placed height).outputs
    simp only [valueBefore_placed] at hleft hmax
    exact ⟨i, hleft, hmax⟩
  · intro i
    have hpaint : p.paint (l.inputBudget tx.inputs) (tx.placed height).outputs i =
        p.paint (l.inputBudget tx.inputs) tx.outputs i := by
      funext o
      simp only [Palette.paint, affords_placed]
    rw [p.type?_colour_true, hpaint, RawTx.placed, List.getElem?_map, Option.map_map]
    rfl

theorem unlocksStake_iff {inputs : List Input} :
    l.unlocksStake inputs ↔ ∃ input o, inputs.head? = some input ∧
      l.unspent? input.source = some o ∧ o.type = .blindVoteLockStake := by
  unfold unlocksStake
  cases inputs.head? with
  | none => simp
  | some input =>
    simp only [Option.bind_some, bsqInput?, Option.any_filter, Option.any_eq_true,
      Bool.and_eq_true, decide_eq_true_eq, Option.some.injEq, exists_and_left, exists_eq_left']
    refine exists_congr fun o => and_congr_right fun _ => and_iff_right_of_imp fun ht => ?_
    rw [carriesBsq, ht]

end Ledger

/-! ### The payload that is judged -/

structure Claimed.Of (c : Claimed) (l : Ledger) (tx : RawTx) (height : UInt32) (p : Palette) :
    Prop where
  payload : tx.payload? = some c.payload
  palette : p.type? = OpReturnType.ofPayload? c.payload
  type? : ∀ i, c.outputs[i]?.map (·.type) =
    tx.outputs[i]?.map (p.paint (l.inputBudget tx.inputs) tx.outputs i)
  stake : c.unlocksStake = l.unlocksStake tx.inputs
  fee : l.Burns tx c.fee
  height : c.height = height

theorem Claimed.hasOutput_iff {c : Claimed} {i : Nat} {type : OutputType} :
    c.hasOutput i type ↔ c.outputs[i]?.map (·.type) = some type := by
  unfold hasOutput
  cases c.outputs[i]? <;> simp

namespace Claimed.Of
variable {c : Claimed} {l : Ledger} {tx : RawTx} {height : UInt32} {p : Palette}
variable (h : c.Of l tx height p)

include h

theorem burns_iff {fee : Nat} : l.Burns tx fee ↔ c.fee = fee :=
  ⟨h.fee.unique, fun he => he ▸ h.fee⟩

theorem pays_iff {i : Nat} {type : OutputType} (hc : p.covered i = type)
    (hu : p.uncovered i ≠ type) (ho : p.opReturn i ≠ type) : c.hasOutput i type ↔ l.Pays tx i := by
  rw [hasOutput_iff, h.type?, Option.map_eq_some_iff, Ledger.Pays]
  refine exists_congr fun o => and_congr_right fun _ => ?_
  rw [Palette.paint, RawOutput.isOpReturn]
  cases o.payload with
  | some payload => simp [ho]
  | none => by_cases ha : Affords (l.inputBudget tx.inputs) tx.outputs i o <;> simp [ha, hc, hu]

theorem not_pays_iff {i : Nat} {type : OutputType} (hc : p.covered i ≠ type)
    (hu : p.uncovered i = type) (ho : p.opReturn i ≠ type) :
    c.hasOutput i type ↔ ∃ o, tx.outputs[i]? = some o ∧ o.payload = none ∧ ¬l.Pays tx i := by
  rw [hasOutput_iff, h.type?, Option.map_eq_some_iff]
  refine exists_congr fun o => and_congr_right fun hi => ?_
  rw [Palette.paint, RawOutput.isOpReturn, Ledger.Pays, hi]
  cases hp : o.payload with
  | some payload => simp [ho]
  | none =>
    by_cases ha : Affords (l.inputBudget tx.inputs) tx.outputs i o <;> simp [hp, ha, hc, hu]

theorem hasForm_iff (length : Nat) (s : OpReturnType) :
    tx.HasForm length s.byte ↔ OpReturnType.ofPayload? c.payload = some s ∧
      c.payload[1]? = some OpReturn.version ∧ c.payload.length = length := by
  simp only [RawTx.HasForm, h.payload, Option.some.injEq, exists_eq_left',
    OpReturnType.ofPayload?_eq_some]
  exact and_rotate

theorem proposes_iff (s : OpReturnType) :
    l.Proposes tx height s.byte ↔ OpReturnType.ofPayload? c.payload = some s ∧
      c.payload[1]? = some OpReturn.version ∧ c.Proposes l := by
  rw [Ledger.Proposes, Claimed.Proposes, h.hasForm_iff, h.burns_iff, h.height]
  simp only [and_assoc, OpReturn.hashPayloadLength]

theorem stake_iff (ht : OpReturnType.ofPayload? c.payload = some .blindVote) :
    c.hasOutput 0 .blindVoteLockStake ↔ l.Pays tx 0 :=
  h.pays_iff (by simp [Palette.covered, h.palette, ht]) (by simp [Palette.uncovered])
    (p.opReturn_ne (by decide) (by decide) 0)

theorem bond_iff (ht : OpReturnType.ofPayload? c.payload = some .lockup) :
    c.hasOutput 0 .bondLock ↔ l.Pays tx 0 :=
  h.pays_iff (by simp [Palette.covered, h.palette, ht]) (by simp [Palette.uncovered])
    (p.opReturn_ne (by decide) (by decide) 0)

theorem candidate_iff (ht : OpReturnType.ofPayload? c.payload = some .compensationRequest) :
    c.hasOutput 1 .issuanceCandidate ↔
      ∃ o, tx.outputs[1]? = some o ∧ o.payload = none ∧ ¬l.Pays tx 1 :=
  h.not_pays_iff (by simp [Palette.covered]) (by simp [Palette.uncovered, h.palette, ht])
    (p.opReturn_ne (by decide) (by decide) 1)

theorem lockup_iff : (∃ high low : UInt8, tx.payload? = some [0x15, 1, high, low] ∧
      l.paramValue .lockTimeMin height.toNat ≤ 256 * high.toNat + low.toNat ∧
      256 * high.toNat + low.toNat ≤ l.paramValue .lockTimeMax height.toNat) ↔
    (OpReturnType.ofPayload? c.payload = some .lockup ∧ c.payload[1]? = some OpReturn.version ∧
      c.payload.length = OpReturn.lockupLength) ∧
      l.paramValue .lockTimeMin c.height.toNat ≤ c.lockTime ∧
      c.lockTime ≤ l.paramValue .lockTimeMax c.height.toNat := by
  have htime {a b high low : UInt8} (hp : c.payload = [a, b, high, low]) :
      c.lockTime = 256 * high.toNat + low.toNat := by rw [lockTime, hp]; rfl
  simp only [h.payload, h.height, Option.some.injEq, OpReturnType.ofPayload?_eq_some]
  constructor
  · rintro ⟨high, low, hp, hrange⟩
    rw [htime hp, hp]
    exact ⟨⟨rfl, rfl, rfl⟩, hrange⟩
  · rintro ⟨⟨ht, hv, hlen⟩, hrange⟩
    obtain ⟨a, b, high, low, hp⟩ := List.length_eq_four.1 hlen
    rw [htime hp] at hrange
    rw [hp] at ht hv
    refine ⟨high, low, ?_, hrange⟩
    rw [hp, Option.some.inj ht, Option.some.inj hv]
    rfl

theorem admits_iff (s : OpReturnType) :
    l.Admits tx height s.txType ↔ OpReturnType.ofPayload? c.payload = some s ∧
      c.payload[1]? = some OpReturn.version ∧ c.Meets l s := by
  cases s with
  | proposal => exact h.proposes_iff .proposal
  | changeParam => exact h.proposes_iff .changeParam
  | compensationRequest =>
    change l.Proposes tx height OpReturnType.compensationRequest.byte ∧ _ ↔ _
    rw [h.proposes_iff, Meets]
    simp only [and_assoc]
    exact and_congr_right fun ht => by rw [h.candidate_iff ht]
  | blindVote =>
    change tx.HasForm 22 OpReturnType.blindVote.byte ∧ _ ↔ _
    rw [h.hasForm_iff, h.burns_iff, Meets, h.height]
    simp only [and_assoc, OpReturn.hashPayloadLength]
    exact and_congr_right fun ht => by rw [h.stake_iff ht]
  | voteReveal =>
    change tx.HasForm 54 OpReturnType.voteReveal.byte ∧ _ ↔ _
    rw [h.hasForm_iff, Meets, h.stake, h.height, Ledger.unlocksStake_iff]
    simp only [and_assoc, OpReturn.voteRevealLength]
  | lockup =>
    change l.Pays tx 0 ∧ _ ↔ _
    rw [h.lockup_iff, Meets]
    constructor
    · rintro ⟨hpays, ⟨ht, hv, hlen⟩, hrange⟩
      exact ⟨ht, hv, hlen, (h.bond_iff ht).2 hpays, hrange⟩
    · rintro ⟨ht, hv, hlen, hbond, hrange⟩
      exact ⟨(h.bond_iff ht).1 hbond, ⟨ht, hv, hlen⟩, hrange⟩

end Claimed.Of

/-! ### Classifying -/

namespace Ledger
variable {l : Ledger} {tx : RawTx} {height : UInt32} {type : TxType}

theorem admits_of_payload_none {fee : Nat} (h : tx.payload? = none) (hfee : l.Burns tx fee) :
    l.Admits tx height type ↔ (if fee = 0 then TxType.transferBsq else .payTradeFee) = type := by
  have hburns (n : Nat) : l.Burns tx n ↔ n = fee := ⟨fun hn => hn.unique hfee, fun hn => hn ▸ hfee⟩
  by_cases hz : fee = 0
  · cases type <;> simp [Admits, Proposes, RawTx.HasForm, h, hburns, hz]
  · cases type <;>
      simp [Admits, Proposes, RawTx.HasForm, h, hburns, hz, Ne.symm hz, Nat.pos_of_ne_zero hz]

theorem Admits.eq_txType {payload : List UInt8} (h : l.Admits tx height type)
    (hp : tx.payload? = some payload) : ∃ s : OpReturnType, type = s.txType := by
  cases type with
  | transferBsq | payTradeFee =>
    have hnone := h.1
    rw [hp] at hnone
    cases hnone
  | proposal => exact ⟨.proposal, rfl⟩
  | compensationRequest => exact ⟨.compensationRequest, rfl⟩
  | changeParam => exact ⟨.changeParam, rfl⟩
  | blindVote => exact ⟨.blindVote, rfl⟩
  | voteReveal => exact ⟨.voteReveal, rfl⟩
  | lockup => exact ⟨.lockup, rfl⟩
  | genesis | undefined | invalid => exact h.elim

theorem type_classifySpending (ht : type ≠ .invalid) :
    (l.classifySpending (tx.placed height)).tx.type = type ↔ l.Admits tx height type := by
  have hfirst : _ = tx.payload? := (Candidate.payload_firstFrom? 0 (tx.placed height).outputs).trans
    (tx.payload?_placed height)
  unfold classifySpending
  cases hc : Candidate.firstFrom? 0 (tx.placed height).outputs with
  | none =>
    rw [hc] at hfirst
    exact (admits_of_payload_none hfirst.symm (l.coloured_placed tx height (.of none)).1).symm
  | some candidate =>
    rw [hc] at hfirst
    obtain ⟨hleft, htypes⟩ := l.coloured_placed tx height (.of (some candidate))
    have hof : Claimed.Of ⟨tx.id, candidate.payload, _, l.unlocksStake tx.inputs, _, height⟩ l tx
        height (.of (some candidate)) :=
      ⟨hfirst.symm, rfl, htypes, rfl, hleft, rfl⟩
    dsimp only
    split
    · next v hv =>
      obtain ⟨s, hs, hversion, hmeets, rfl⟩ := Claimed.judge_eq_ok.1 hv
      change s.txType = type ↔ _
      constructor
      · rintro rfl
        exact (hof.admits_iff s).2 ⟨hs, hversion, hmeets⟩
      · intro ha
        obtain ⟨s', rfl⟩ := ha.eq_txType hfirst.symm
        obtain ⟨hs', -⟩ := (hof.admits_iff s').1 ha
        rw [Option.some.inj (hs.symm.trans hs')]
    · next rejection hr =>
      refine iff_of_false ht.symm fun ha => ?_
      obtain ⟨s, rfl⟩ := ha.eq_txType hfirst.symm
      obtain ⟨hs, hversion, hmeets⟩ := (hof.admits_iff s).1 ha
      have hok := Claimed.judge_eq_ok.2 ⟨s, hs, hversion, hmeets, rfl⟩
      cases hr.symm.trans hok

end Ledger

theorem Ledger.classify_type_iff (l : Ledger) (tx : RawTx) (height : UInt32)
    (hg : ¬l.genesis.names tx) (hb : l.hasBsqInput tx.inputs) :
    ∃ c, l.classify tx height = .ok c ∧
      (∀ type, type ≠ .invalid → (c.tx.type = type ↔ l.Admits tx height type)) ∧
      (c.tx.type = .invalid ↔ ∀ type, ¬l.Admits tx height type) := by
  refine ⟨_, classify_eq_ok.2 (.inr (.inl ⟨hg, hb, rfl⟩)), fun _ => type_classifySpending, ?_, ?_⟩
  · intro hinvalid type ha
    have ht : type ≠ .invalid := fun ht => by rw [ht] at ha; exact ha
    exact ht (((type_classifySpending ht).2 ha).symm.trans hinvalid)
  · intro hnone
    by_contra ht
    exact hnone _ ((type_classifySpending ht).1 rfl)

theorem Ledger.classify_request :
    let l := ((Ledger.new Sample.genesis).applyAll [{ Sample.first with txs := [Sample.supply] }])
    ¬l.genesis.names Sample.request ∧ l.hasBsqInput Sample.request.inputs ∧
      ∃ c, l.classify Sample.request 10 = .ok c ∧ c.tx.type = .compensationRequest ∧
        l.Admits Sample.request 10 .compensationRequest := by
  intro l
  have hg : ¬l.genesis.names Sample.request := by decide +kernel
  have hb : l.hasBsqInput Sample.request.inputs := by decide +kernel
  obtain ⟨c, hc, hiff, -⟩ := Ledger.classify_type_iff l Sample.request 10 hg hb
  have htype : (l.classify Sample.request 10).map (·.tx.type) = .ok .compensationRequest := by
    decide +kernel
  rw [hc] at htype
  have htype : c.tx.type = .compensationRequest := Except.ok.inj htype
  exact ⟨hg, hb, c, hc, htype, (hiff _ (by decide)).1 htype⟩

end DaoLedger
