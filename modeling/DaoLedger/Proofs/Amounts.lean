import Mathlib.Data.List.Nodup
import DaoLedger.Proofs.Stored
/-!
Sums of amounts, and the outputs of stored transactions that they are taken over.
-/
namespace DaoLedger

theorem total_append (a b : List Nat) : total (a ++ b) = total a + total b := by
  induction a with
  | nil => simp [total]
  | cons n a ih => simp only [List.cons_append, total, ih, Nat.add_assoc]

theorem total_perm {a b : List Nat} (h : a.Perm b) : total a = total b := by
  induction h with
  | nil => rfl
  | cons n h ih => rw [total, total, ih]
  | swap m n a => simp only [total]; omega
  | trans _ _ iha ihb => rw [iha, ihb]

def sumOf (p : Output → Bool) (outputs : List Output) : Nat :=
  total ((outputs.filter p).map (·.amount))

section
variable (p q : Output → Bool) {outputs more : List Output}

theorem sumOf_cons (o : Output) (outputs : List Output) :
    sumOf p (o :: outputs) = (if p o then o.amount else 0) + sumOf p outputs := by
  by_cases h : p o <;> simp [sumOf, h, total]

theorem sumOf_append (outputs more : List Output) :
    sumOf p (outputs ++ more) = sumOf p outputs + sumOf p more := by
  simp only [sumOf, List.filter_append, List.map_append, total_append]

variable {p q}

theorem sumOf_perm (h : outputs.Perm more) : sumOf p outputs = sumOf p more :=
  total_perm ((h.filter p).map _)

theorem sumOf_congr (h : ∀ o ∈ outputs, p o = q o) : sumOf p outputs = sumOf q outputs := by
  rw [sumOf, sumOf, List.filter_congr h]

theorem sumOf_le (h : ∀ o ∈ outputs, p o → q o) : sumOf p outputs ≤ sumOf q outputs := by
  induction outputs with
  | nil => exact Nat.le_refl _
  | cons o outputs ih =>
    have hrest := ih fun o ho => h o (List.mem_cons_of_mem _ ho)
    have ho := h o List.mem_cons_self
    rw [sumOf_cons, sumOf_cons]
    by_cases hp : p o
    · rw [if_pos hp, if_pos (ho hp)]
      omega
    · rw [if_neg hp]
      omega

theorem sumOf_eq_zero (h : ∀ o ∈ outputs, p o = false) : sumOf p outputs = 0 := by
  have hnil : outputs.filter p = [] := List.filter_eq_nil_iff.2 fun o ho => by simp [h o ho]
  rw [sumOf, hnil]
  rfl

variable (p q)

theorem sumOf_split (outputs : List Output) :
    sumOf p outputs = sumOf (fun o => p o && q o) outputs + sumOf (fun o => p o && !q o) outputs := by
  induction outputs with
  | nil => rfl
  | cons o outputs ih =>
    rw [sumOf_cons, sumOf_cons, sumOf_cons, ih]
    by_cases hp : p o
    · by_cases hq : q o <;> simp [hp, hq] <;> omega
    · simp [hp]

end

def OutputType.holds : OutputType → Bool
  | .genesisOutput | .bsqOutput | .blindVoteLockStake | .bondLock => true
  | _ => false

def held (outputs : List Output) : Nat := sumOf (·.type.holds) outputs

theorem held_cons (o : Output) (outputs : List Output) :
    held (o :: outputs) = (if o.type.holds then o.amount else 0) + held outputs :=
  sumOf_cons _ o outputs

/-! ### The outputs of stored transactions -/

def outputsOf (txs : List Tx) : List Output := txs.flatMap (·.outputs)

variable {txs : List Tx} {o : Output}

theorem outputsOf_append_one (txs : List Tx) (tx : Tx) :
    outputsOf (txs ++ [tx]) = outputsOf txs ++ tx.outputs := by
  simp [outputsOf]

namespace Distinct

theorem mem_outputsOf (h : Distinct txs) :
    o ∈ outputsOf txs ↔ outputIn? txs o.key = some o := by
  rw [h.outputIn?_eq_some, outputsOf, List.mem_flatMap]
  simp

theorem key_of_outputIn? (h : Distinct txs) {key : OutputKey} (ho : outputIn? txs key = some o) :
    o.key = key := by
  obtain ⟨tx, -, -, hk⟩ := h.outputIn?_eq_some.1 ho
  exact hk

theorem outputIn?_eq_some_iff (h : Distinct txs) {key : OutputKey} :
    outputIn? txs key = some o ↔ o ∈ outputsOf txs ∧ o.key = key := by
  constructor
  · intro ho
    have hk := h.key_of_outputIn? ho
    exact ⟨h.mem_outputsOf.2 (hk ▸ ho), hk⟩
  · rintro ⟨ho, rfl⟩
    exact h.mem_outputsOf.1 ho

theorem nodup_outputsOf (h : Distinct txs) : (outputsOf txs).Nodup := by
  refine List.nodup_flatMap.2 ⟨fun tx hm => ((h.named tx hm).nodup_keys).of_map, ?_⟩
  refine (List.pairwise_map.1 h.ids).imp_of_mem fun {a b} ha hb hne => ?_
  intro o hoa hob
  obtain ⟨i, hi⟩ := List.mem_iff_getElem?.1 hoa
  obtain ⟨j, hj⟩ := List.mem_iff_getElem?.1 hob
  have hida := ((h.named a ha).key_of_getElem? hi).1
  have hidb := ((h.named b hb).key_of_getElem? hj).1
  exact hne (hida.symm.trans hidb)

end Distinct

/-- Entries of a map that give the outputs of their keys give no output twice. -/
theorem nodup_filterMap_toList {ν : Type} {m : Map OutputKey ν} {f : OutputKey × ν → Option Output}
    (hf : ∀ e ∈ m.toList, ∀ o, f e = some o → o.key = e.1) : (m.toList.filterMap f).Nodup := by
  refine List.pairwise_filterMap.2 ?_
  refine Std.ExtTreeMap.distinct_keys_toList.imp_of_mem fun {a b} ha hb hne o ho q hq he => ?_
  refine hne ?_
  rw [← hf a ha o ho, ← hf b hb q hq, he]
  exact Std.ReflCmp.compare_self

end DaoLedger
