import DaoLedger.Proofs.Classification
/-!
What colouring comes to. Main statements: an output is given BSQ just when the budget covers it
together with all before it and was not used up by those, and what is left is the budget without the
largest sum of first outputs that it covers.
-/
namespace DaoLedger

/-- What the outputs before a position ask for, OP_RETURN outputs apart. -/
def valueBefore (outputs : List RawOutput) (position : Nat) : Nat :=
  total (((outputs.take position).filter fun o => !o.isOpReturn).map RawOutput.amount)

def Affords (budget : Nat) (outputs : List RawOutput) (position : Nat) (o : RawOutput) : Prop :=
  valueBefore outputs position < budget ∧ valueBefore outputs position + o.amount ≤ budget

instance (budget : Nat) (outputs : List RawOutput) (position : Nat) (o : RawOutput) :
    Decidable (Affords budget outputs position o) :=
  inferInstanceAs (Decidable (_ ∧ _))

section
variable {o q : RawOutput} {outputs : List RawOutput} {budget : Nat}

theorem valueBefore_zero : valueBefore outputs 0 = 0 := rfl

theorem valueBefore_cons_of_isOpReturn (h : o.isOpReturn) (i : Nat) :
    valueBefore (o :: outputs) (i + 1) = valueBefore outputs i := by
  simp [valueBefore, h]

theorem valueBefore_cons (h : ¬o.isOpReturn) (i : Nat) :
    valueBefore (o :: outputs) (i + 1) = o.amount + valueBefore outputs i := by
  simp [valueBefore, h, total]

theorem covers_iff : covers budget o ↔ 0 < budget ∧ o.amount ≤ budget := by
  simp [covers]

theorem affords_zero : Affords budget outputs 0 o ↔ covers budget o := by
  rw [Affords, valueBefore_zero, Nat.zero_add, covers_iff]

theorem affords_cons_of_isOpReturn (h : o.isOpReturn) (i : Nat) :
    Affords budget (o :: outputs) (i + 1) q ↔ Affords budget outputs i q := by
  rw [Affords, valueBefore_cons_of_isOpReturn h, Affords]

theorem affords_cons (h : ¬o.isOpReturn) (hcov : covers budget o) (i : Nat) :
    Affords budget (o :: outputs) (i + 1) q ↔ Affords (budget - o.amount) outputs i q := by
  rw [covers_iff] at hcov
  rw [Affords, valueBefore_cons h, Affords]
  omega

theorem not_affords_cons (h : ¬o.isOpReturn) (hcov : ¬covers budget o) (i : Nat) :
    ¬Affords budget (o :: outputs) (i + 1) q := by
  rw [covers_iff] at hcov
  rw [Affords, valueBefore_cons h]
  omega

end

namespace Palette
variable (p : Palette)

theorem opReturn_ne {type : OutputType} (hu : type ≠ .undefined) (hi : type ≠ .invalidOutput)
    (position : Nat) : p.opReturn position ≠ type := by
  unfold opReturn
  split
  · exact hu.symm
  · exact hi.symm

theorem type?_colour (openTo : Bool) (budget position : Nat) (outputs : List RawOutput) (i : Nat) :
    (p.colour openTo budget position outputs).outputs[i]?.map (·.type) =
      outputs[i]?.map fun o =>
        if o.isOpReturn then p.opReturn (position + i)
        else if openTo ∧ Affords budget outputs i o then p.covered (position + i)
        else p.uncovered (position + i) := by
  fun_induction colour p openTo budget position outputs generalizing i with
  | case1 => rfl
  | case2 openTo budget position o outputs hop ih =>
    cases i with
    | zero => simp [Coloured.cons, hop]
    | succ i =>
      simp only [Coloured.cons, List.getElem?_cons_succ, ih, affords_cons_of_isOpReturn hop,
        Nat.add_right_comm position 1, Nat.add_assoc]
  | case3 openTo budget position o outputs hop hcov ih =>
    obtain ⟨hopen, hcov⟩ := Bool.and_eq_true_iff.1 hcov
    cases i with
    | zero => simp [Coloured.cons, hop, hopen, affords_zero, hcov]
    | succ i =>
      simp only [Coloured.cons, List.getElem?_cons_succ, ih, affords_cons hop hcov, hopen,
        Nat.add_right_comm position 1, Nat.add_assoc]
  | case4 openTo budget position o outputs hop hcov ih =>
    have hno : ¬(openTo ∧ covers budget o) := fun h => hcov (Bool.and_eq_true_iff.2 h)
    cases i with
    | zero => simp [Coloured.cons, hop, affords_zero, hno]
    | succ i =>
      have hnone (q : RawOutput) : ¬(openTo ∧ Affords budget (o :: outputs) (i + 1) q) :=
        fun h => not_affords_cons hop (fun hc => hno ⟨h.1, hc⟩) i h.2
      simp only [Coloured.cons, List.getElem?_cons_succ, ih, hnone, Nat.add_right_comm position 1,
        Nat.add_assoc, Bool.false_eq_true, false_and, if_false]

/-- The type that colouring gives an output, by what the outputs before it ask for. -/
def paint (budget : Nat) (outputs : List RawOutput) (position : Nat) (o : RawOutput) : OutputType :=
  if o.isOpReturn then p.opReturn position
  else if Affords budget outputs position o then p.covered position
  else p.uncovered position

theorem type?_colour_true (budget : Nat) (outputs : List RawOutput) (i : Nat) :
    (p.colour true budget 0 outputs).outputs[i]?.map (·.type) =
      outputs[i]?.map (p.paint budget outputs i) := by
  rw [p.type?_colour]
  simp only [Nat.zero_add, true_and]
  rfl

theorem left_colour_false (budget position : Nat) (outputs : List RawOutput) :
    (p.colour false budget position outputs).left = budget := by
  induction outputs generalizing position with
  | nil => rfl
  | cons o outputs ih =>
    unfold colour
    split
    · exact ih (position + 1)
    · exact ih (position + 1)

theorem left_colour (budget position : Nat) (outputs : List RawOutput) :
    ∃ i, (p.colour true budget position outputs).left + valueBefore outputs i = budget ∧
      ∀ j, valueBefore outputs j ≤ budget → valueBefore outputs j ≤ valueBefore outputs i := by
  induction outputs generalizing budget position with
  | nil => exact ⟨0, rfl, fun j _ => by simp [valueBefore]⟩
  | cons o outputs ih =>
    unfold colour
    split
    · next hop =>
      obtain ⟨i, hleft, hmax⟩ := ih budget (position + 1)
      refine ⟨i + 1, by rwa [valueBefore_cons_of_isOpReturn hop], fun j hj => ?_⟩
      cases j with
      | zero => exact Nat.zero_le _
      | succ j =>
        rw [valueBefore_cons_of_isOpReturn hop] at hj ⊢
        rw [valueBefore_cons_of_isOpReturn hop]
        exact hmax j hj
    · next hop =>
      split
      · next hcov =>
        have hle := (covers_iff.1 hcov).2
        obtain ⟨i, hleft, hmax⟩ := ih (budget - o.amount) (position + 1)
        refine ⟨i + 1, ?_, fun j hj => ?_⟩
        · rw [valueBefore_cons hop]
          change (p.colour true (budget - o.amount) (position + 1) outputs).left + _ = budget
          omega
        · cases j with
          | zero => exact Nat.zero_le _
          | succ j =>
            rw [valueBefore_cons hop] at hj ⊢
            rw [valueBefore_cons hop]
            have hj' := hmax j (by omega)
            omega
      · next hcov =>
        -- Every longer sum has this output in it, so the budget covers none.
        rw [Bool.true_and, covers_iff] at hcov
        refine ⟨0, p.left_colour_false budget (position + 1) outputs, fun j hj => ?_⟩
        cases j with
        | zero => exact Nat.le_refl _
        | succ j =>
          rw [valueBefore_cons hop] at hj ⊢
          omega

end Palette

end DaoLedger
