import DaoLedger.Chain.Id
/-!
Sorted lists stand for what is in them. Main statement: two lists are sorted alike just when they
hold the same elements equally often, if elements that compare as equal are equal.
-/
namespace DaoLedger

theorem TxId.isLE_compare {a b : TxId} : (compare a b).isLE ↔ a.text ≤ b.text :=
  isLE_compareOfLessAndEq String.le_antisymm String.not_le String.le_total

variable {α : Type} (cmp : α → α → Ordering) [Std.TransCmp cmp] {xs ys : List α}

theorem pairwise_mergeSort_isLE (xs : List α) :
    (xs.mergeSort fun a b => (cmp a b).isLE).Pairwise fun a b => (cmp a b).isLE := by
  refine List.pairwise_mergeSort (fun _ _ _ => Std.TransCmp.isLE_trans) (fun a b => ?_) xs
  have hswap : cmp b a = (cmp a b).swap := Std.OrientedCmp.eq_swap
  rw [hswap]
  cases cmp a b <;> rfl

theorem mergeSort_isLE_eq_iff (h : ∀ a ∈ xs, ∀ b ∈ xs, cmp a b = .eq → a = b) :
    (xs.mergeSort fun a b => (cmp a b).isLE) = (ys.mergeSort fun a b => (cmp a b).isLE) ↔
      xs.Perm ys := by
  have hxs := List.mergeSort_perm xs fun a b => (cmp a b).isLE
  have hys := List.mergeSort_perm ys fun a b => (cmp a b).isLE
  constructor
  · intro heq
    exact hxs.symm.trans (heq ▸ hys)
  · intro hp
    refine List.Perm.eq_of_pairwise (fun a b ha hb hab hba => ?_) (pairwise_mergeSort_isLE cmp xs)
      (pairwise_mergeSort_isLE cmp ys) (hxs.trans (hp.trans hys.symm))
    refine h a (hxs.mem_iff.1 ha) b (hp.mem_iff.2 (hys.mem_iff.1 hb)) ?_
    exact Std.OrientedCmp.isLE_antisymm hab hba

end DaoLedger
