import DaoLedger.Classify.Tx
import DaoLedger.Proofs.Amounts
import DaoLedger.Proofs.Judging
/-!
What classification decides and what it leaves alone. Main statements: the chain data of a
transaction is kept, what the outputs hold and what is burnt add up to the budget of the inputs,
and an accepted payload changes no param.
-/
namespace DaoLedger

/-! ### Colouring -/

namespace Palette
variable (p : Palette)

theorem holds_covered (i : Nat) : (p.covered i).holds = true := by
  unfold covered
  split <;> rfl

theorem holds_uncovered (i : Nat) : (p.uncovered i).holds = false := by
  unfold uncovered
  split <;> rfl

theorem holds_opReturn (i : Nat) : (p.opReturn i).holds = false := by
  unfold opReturn
  split <;> rfl

theorem raw_colour (openTo : Bool) (budget i : Nat) (outputs : List RawOutput) :
    (p.colour openTo budget i outputs).outputs.map Output.toRawOutput = outputs := by
  fun_induction colour p openTo budget i outputs with
  | case1 => rfl
  | case2 openTo budget i o outputs hop ih => exact congrArg (o :: ·) ih
  | case3 openTo budget i o outputs hop hcov ih => exact congrArg (o :: ·) ih
  | case4 openTo budget i o outputs hop hcov ih => exact congrArg (o :: ·) ih

/-- What the outputs hold and what is left are the whole budget. -/
theorem held_colour (openTo : Bool) (budget i : Nat) (outputs : List RawOutput) :
    held (p.colour openTo budget i outputs).outputs + (p.colour openTo budget i outputs).left =
      budget := by
  fun_induction colour p openTo budget i outputs with
  | case1 => exact Nat.zero_add _
  | case2 openTo budget i o outputs hop ih =>
    rw [Coloured.cons, held_cons, if_neg (by simp [p.holds_opReturn]), Nat.zero_add, ih]
  | case3 openTo budget i o outputs hop hcov ih =>
    have hle : o.amount ≤ budget := by
      simp only [covers, Bool.and_eq_true, decide_eq_true_eq] at hcov
      exact hcov.2.2
    rw [Coloured.cons, held_cons, if_pos (by simp [p.holds_covered]), Nat.add_assoc, ih]
    exact Nat.add_sub_of_le hle
  | case4 openTo budget i o outputs hop hcov ih =>
    rw [Coloured.cons, held_cons, if_neg (by simp [p.holds_uncovered]), Nat.zero_add, ih]

/-- Before the payload is judged no output has the type of an accepted one, and OP_RETURN outputs
hold nothing. -/
theorem type_colour (openTo : Bool) (budget i : Nat) (outputs : List RawOutput) :
    ∀ o ∈ (p.colour openTo budget i outputs).outputs,
      o.type.isOpReturn = false ∧ (o.payload.isSome → o.type.holds = false) := by
  fun_induction colour p openTo budget i outputs with
  | case1 => simp
  | case2 openTo budget i o outputs hop ih =>
    intro q hq
    rcases List.mem_cons.1 hq with rfl | hq
    · refine ⟨?_, fun _ => p.holds_opReturn i⟩
      simp only [opReturn]
      split <;> rfl
    · exact ih q hq
  | case3 openTo budget i o outputs hop hcov ih =>
    intro q hq
    rcases List.mem_cons.1 hq with rfl | hq
    · refine ⟨?_, fun hs => absurd hs hop⟩
      simp only [covered]
      split <;> rfl
    · exact ih q hq
  | case4 openTo budget i o outputs hop hcov ih =>
    intro q hq
    rcases List.mem_cons.1 hq with rfl | hq
    · refine ⟨?_, fun hs => absurd hs hop⟩
      simp only [uncovered]
      split <;> rfl
    · exact ih q hq

end Palette

theorem Candidate.firstFrom?_eq_some {i : Nat} {outputs : List RawOutput} {c : Candidate}
    (h : Candidate.firstFrom? i outputs = some c) :
    ∃ j o, c.position = i + j ∧ outputs[j]? = some o ∧ o.payload = some c.payload := by
  induction outputs generalizing i with
  | nil => cases h
  | cons o outputs ih =>
    unfold Candidate.firstFrom? at h
    split at h
    · next payload hp =>
      cases h
      exact ⟨0, o, rfl, rfl, hp⟩
    · obtain ⟨j, q, hpos, hq, hp⟩ := ih h
      exact ⟨j + 1, q, by omega, by simpa using hq, hp⟩

/-! ### Giving the outputs their last types -/

theorem raw_retype (type : OutputType) (outputs : List Output) (i : Nat) :
    (retype type outputs i).map Output.toRawOutput = outputs.map Output.toRawOutput := by
  apply List.ext_getElem?
  intro j
  simp only [retype, List.getElem?_map, List.getElem?_modify]
  cases outputs[j]? with
  | none => rfl
  | some o => by_cases h : i = j <;> simp [h]

theorem held_retype {type : OutputType} {outputs : List Output} {i : Nat}
    (ht : type.holds = false) (ho : ∀ o, outputs[i]? = some o → o.type.holds = false) :
    held (retype type outputs i) = held outputs := by
  unfold retype
  induction outputs generalizing i with
  | nil => simp
  | cons o outputs ih =>
    cases i with
    | zero => simp [held_cons, ht, ho o rfl]
    | succ i =>
      rw [List.modify_succ_cons, held_cons, held_cons, ih fun q hq => ho q (by simpa using hq)]

theorem mem_retype {type : OutputType} {outputs : List Output} {i : Nat} {o : Output}
    (h : o ∈ retype type outputs i) :
    o ∈ outputs ∨ ∃ q, outputs[i]? = some q ∧ o = { q with type } := by
  obtain ⟨j, hj⟩ := List.mem_iff_getElem?.1 h
  rw [retype, List.getElem?_modify] at hj
  obtain ⟨q, hq, rfl⟩ := Option.map_eq_some_iff.1 hj
  by_cases he : i = j
  · subst he
    exact .inr ⟨q, hq, by simp⟩
  · exact .inl (by simpa [he] using List.mem_of_getElem? hq)

theorem holds_plain (t : OutputType) : t.plain.holds = t.holds := by
  cases t <;> rfl

theorem held_plain (outputs : List Output) : held (outputs.map Output.plain) = held outputs := by
  induction outputs with
  | nil => rfl
  | cons o outputs ih =>
    have hp : o.plain.type.holds = o.type.holds := holds_plain o.type
    have ha : o.plain.amount = o.amount := rfl
    rw [List.map_cons, held_cons, held_cons, ih, hp, ha]

theorem raw_plain (outputs : List Output) :
    (outputs.map Output.plain).map Output.toRawOutput = outputs.map Output.toRawOutput := by
  rw [List.map_map]
  rfl

/-! ### Judging the payload -/

structure Verdict.Accepts (v : Verdict) : Prop where
  txType : v.txType ≠ .undefined
  outputType : v.outputType.isOpReturn
  event : ∀ event, v.event = some event → event.paramChange? = none

theorem Claimed.accepts_of_judge {c : Claimed} {l : Ledger} {v : Verdict} (h : c.judge l = .ok v) :
    v.Accepts := by
  obtain ⟨type, -, -, -, rfl⟩ := judge_eq_ok.1 h
  refine ⟨?_, ?_, fun event he => ?_⟩
  · cases type <;> simp [verdict, OpReturnType.txType]
  · cases type <;> rfl
  · cases type <;> cases he <;> rfl

/-! ### Classifying -/

structure Ledger.Spends (l : Ledger) (tx : RawTx) (c : Classified) : Prop where
  raw : c.tx.raw = tx
  type : c.tx.type ≠ .undefined
  balance : held c.tx.outputs + c.tx.burntFee = l.inputBudget tx.inputs
  opReturn : ∀ o ∈ c.tx.outputs, o.type.isOpReturn → o.payload.isSome
  event : ∀ event, c.event = some event → event.paramChange? = none

theorem isOpReturn_plain (t : OutputType) : t.plain.isOpReturn = t.isOpReturn := by
  cases t <;> rfl

theorem RawTx.raw_decided {tx : RawTx} {outputs : List Output} {type : TxType} {fee : Nat}
    (h : outputs.map Output.toRawOutput = tx.outputs) : (tx.decided outputs type fee).raw = tx := by
  cases tx
  simp [Tx.raw, RawTx.decided, RawTx.undefined, h]

/-- The output that carries the payload, before the payload is judged. -/
theorem candidate_colour {p : Palette} {budget : Nat} {outputs : List RawOutput} {c : Candidate}
    (hc : Candidate.firstFrom? 0 outputs = some c) {o : Output}
    (ho : (p.colour true budget 0 outputs).outputs[c.position]? = some o) :
    o.payload.isSome ∧ o.type.holds = false := by
  obtain ⟨j, q, hpos, hq, hp⟩ := Candidate.firstFrom?_eq_some hc
  have hraw : o.toRawOutput = q := by
    have hj := congrArg (·[c.position]?) (p.raw_colour true budget 0 outputs)
    simp only [List.getElem?_map, ho, Option.map_some] at hj
    rw [hpos, Nat.zero_add, hq] at hj
    exact Option.some.inj hj
  have hs : o.payload.isSome := by rw [hraw, hp]; rfl
  exact ⟨hs, (p.type_colour true budget 0 outputs o (List.mem_of_getElem? ho)).2 hs⟩

theorem OutputType.holds_of_isOpReturn {t : OutputType} (h : t.isOpReturn) : t.holds = false := by
  cases t <;> first | rfl | cases h

theorem Ledger.spends_classifySpending (l : Ledger) (tx : RawTx) :
    l.Spends tx (l.classifySpending tx) := by
  unfold Ledger.classifySpending
  cases hc : Candidate.firstFrom? 0 tx.outputs with
  | none =>
    have hraw := Palette.raw_colour (.of none) true (l.inputBudget tx.inputs) 0 tx.outputs
    have htype := Palette.type_colour (.of none) true (l.inputBudget tx.inputs) 0 tx.outputs
    exact {
      raw := RawTx.raw_decided hraw
      type := by simp only [RawTx.decided]; split <;> simp
      balance := Palette.held_colour _ _ _ _ _
      opReturn := fun o ho h => by simp [(htype o ho).1] at h
      event := by simp }
  | some candidate =>
    have hraw := Palette.raw_colour (.of (some candidate)) true (l.inputBudget tx.inputs) 0 tx.outputs
    have htype := Palette.type_colour (.of (some candidate)) true (l.inputBudget tx.inputs) 0
      tx.outputs
    have hheld := Palette.held_colour (.of (some candidate)) true (l.inputBudget tx.inputs) 0
      tx.outputs
    dsimp only
    split
    · next v hv =>
      -- The output that an accepted payload retypes held nothing, so the balance stays.
      have hv := Claimed.accepts_of_judge hv
      refine ⟨RawTx.raw_decided ((raw_retype _ _ _).trans hraw), hv.txType, ?_, ?_, hv.event⟩
      · rw [RawTx.decided, held_retype (OutputType.holds_of_isOpReturn hv.outputType)
          fun o ho => (candidate_colour hc ho).2]
        exact hheld
      · intro o ho h
        rcases mem_retype ho with ho | ⟨q, hq, rfl⟩
        · simp [(htype o ho).1] at h
        · exact (candidate_colour hc hq).1
    · next rejection hr =>
      refine ⟨RawTx.raw_decided ?_, by simp [RawTx.decided], ?_, ?_, by simp⟩
      · rw [raw_plain, raw_retype, hraw]
      · rw [RawTx.decided, held_plain, held_retype rfl fun o ho => (candidate_colour hc ho).2]
        exact hheld
      · intro o ho h
        obtain ⟨q, hq, rfl⟩ := List.mem_map.1 ho
        rw [Output.plain, isOpReturn_plain] at h
        rcases mem_retype hq with hq | ⟨q', -, rfl⟩
        · simp [(htype q hq).1] at h
        · cases h

theorem Genesis.find?_eq_ok {g : Genesis} {tx : RawTx} {found : Option Tx} :
    g.find? tx = .ok found ↔
      (g.names tx ∧ tx.outputSum = g.totalSupply.toNat ∧ found = some tx.genesis) ∨
        (¬g.names tx ∧ found = none) := by
  unfold Genesis.find?
  by_cases hg : g.names tx
  · by_cases hlow : tx.outputSum < g.totalSupply.toNat
    · simp [hg, hlow, Nat.ne_of_lt hlow]
    · by_cases hhigh : g.totalSupply.toNat < tx.outputSum
      · simp [hg, hlow, hhigh, Nat.ne_of_gt hhigh]
      · have he : tx.outputSum = g.totalSupply.toNat := by omega
        simp [hg, he, eq_comm]
  · simp [hg, eq_comm]

theorem Ledger.classify_eq_ok {l : Ledger} {tx : RawTx} {height : UInt32} {c : Classified} :
    l.classify tx height = .ok c ↔
      (l.genesis.names tx ∧ tx.outputSum = l.genesis.totalSupply.toNat ∧
          c = ⟨tx.genesis, none, none⟩) ∨
        (¬l.genesis.names tx ∧ l.hasBsqInput tx.inputs ∧
          c = l.classifySpending (tx.placed height)) ∨
        (¬l.genesis.names tx ∧ ¬l.hasBsqInput tx.inputs ∧
          c = ⟨(tx.placed height).undefined, none, none⟩) := by
  have hi : (tx.placed height).inputs = tx.inputs := rfl
  unfold Ledger.classify
  cases hf : l.genesis.find? tx with
  | error e =>
    have hg : l.genesis.names tx := Decidable.byContradiction fun hg => by
      rw [Genesis.find?_eq_ok.2 (.inr ⟨hg, rfl⟩)] at hf
      cases hf
    have hsum : tx.outputSum ≠ l.genesis.totalSupply.toNat := fun hsum => by
      rw [Genesis.find?_eq_ok.2 (.inl ⟨hg, hsum, rfl⟩)] at hf
      cases hf
    simp [hg, hsum]
  | ok found =>
    rcases Genesis.find?_eq_ok.1 hf with ⟨hg, hsum, rfl⟩ | ⟨hg, rfl⟩
    · simp only [hg, hsum, Except.ok.injEq, not_true, true_and, false_and, or_false]
      exact eq_comm
    · by_cases hb : l.hasBsqInput tx.inputs
      · simp [hg, hi, hb, eq_comm]
      · simp [hg, hi, hb, eq_comm]

end DaoLedger
