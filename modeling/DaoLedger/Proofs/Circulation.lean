import DaoLedger.Classify.Colour
import DaoLedger.Proofs.Indexed
/-!
How much BSQ there is. Main statements: what circulates, what was issued and what the inputs of a
transaction bring are sums over the outputs of the stored transactions.
-/
namespace DaoLedger

namespace Ledger

def issued (l : Ledger) (o : Output) : Bool := o.type = .issuanceCandidate && l.isIssued o.txId

/-- The BSQ in the unspent outputs. -/
def circulating (l : Ledger) : Nat :=
  sumOf (fun o => o.type.holds || l.issued o) (l.coins.unspent.toList.map (·.2))

def minted (l : Ledger) : Nat := if l.genesisTx?.isSome then l.genesis.totalSupply.toNat else 0

namespace Indexed
variable {l : Ledger}

theorem unspent?_eq_some (h : l.Indexed) {key : OutputKey} {o : Output} :
    l.unspent? key = some o ↔ o ∈ outputsOf l.storedTxs ∧ o.key = key ∧ l.isUnspent key := by
  have hu : l.coins.unspent[key]? = if key ∈ l.coins.spent then none else _ :=
    h.reflects.unspent key
  have hiff : outputIn? l.storedTxs key = some o ↔ _ := h.distinct.outputIn?_eq_some_iff
  rw [isUnspent, decide_eq_true_eq, ← Std.ExtTreeMap.isSome_getElem?_iff_mem, unspent?, hu]
  split
  · simp
  · constructor
    · intro ho
      exact ⟨(hiff.1 ho).1, (hiff.1 ho).2, by rw [ho]; rfl⟩
    · exact fun ⟨ho, hk, _⟩ => hiff.2 ⟨ho, hk⟩

theorem unspent_perm (h : l.Indexed) :
    (l.coins.unspent.toList.map (·.2)).Perm
      ((outputsOf l.storedTxs).filter fun o => l.isUnspent o.key) := by
  have hmem (e : OutputKey × Output) (he : e ∈ l.coins.unspent.toList) :
      e.2 ∈ outputsOf l.storedTxs ∧ e.2.key = e.1 ∧ l.isUnspent e.1 :=
    h.unspent?_eq_some.1 (Std.ExtTreeMap.mem_toList_iff_getElem?_eq_some.1 he)
  have hnodup : (l.coins.unspent.toList.map (·.2)).Nodup := by
    rw [← List.filterMap_eq_map]
    exact nodup_filterMap_toList fun e he o ho => by
      rw [← Option.some.inj ho]
      exact (hmem e he).2.1
  refine (List.perm_ext_iff_of_nodup hnodup (h.distinct.nodup_outputsOf.filter _)).2 fun o => ?_
  rw [List.mem_map, List.mem_filter]
  constructor
  · rintro ⟨e, he, rfl⟩
    obtain ⟨hs, hk, hu⟩ := hmem e he
    exact ⟨hs, by rw [hk]; exact hu⟩
  · rintro ⟨hs, hu⟩
    have ho : l.coins.unspent[o.key]? = some o := h.unspent?_eq_some.2 ⟨hs, rfl, hu⟩
    exact ⟨(o.key, o), Std.ExtTreeMap.mem_toList_iff_getElem?_eq_some.2 ho, rfl⟩

theorem sumOf_filter (p q : Output → Bool) (outputs : List Output) :
    sumOf p (outputs.filter q) = sumOf (fun o => q o && p o) outputs := by
  rw [sumOf, sumOf, List.filter_filter]
  simp only [Bool.and_comm]

theorem circulating_eq (h : l.Indexed) :
    l.circulating =
      sumOf (fun o => l.isUnspent o.key && (o.type.holds || l.issued o))
        (outputsOf l.storedTxs) := by
  rw [circulating, sumOf_perm h.unspent_perm, sumOf_filter]

theorem output?_eq (h : l.Indexed) (key : OutputKey) :
    l.output? key = outputIn? l.storedTxs key := by
  rw [output?, tx?, h.getElem?_txs, outputIn?]

theorem outputsOfType_perm (h : l.Indexed) (type : OutputType) :
    (l.outputsOfType type).Perm ((outputsOf l.storedTxs).filter (·.type = type)) := by
  refine (List.mergeSort_perm _ _).trans ?_
  have hiff {key : OutputKey} {o : Output} :
      l.output? key = some o ↔ o ∈ outputsOf l.storedTxs ∧ o.key = key := by
    rw [h.output?_eq, h.distinct.outputIn?_eq_some_iff]
  have hnodup : ((l.coins.types.toList.filter (·.2 = type)).filterMap
      fun e => l.output? e.1).Nodup := by
    rw [List.filterMap_filter]
    refine nodup_filterMap_toList fun e _ o ho => ?_
    split at ho
    · exact (hiff.1 ho).2
    · cases ho
  refine (List.perm_ext_iff_of_nodup hnodup (h.distinct.nodup_outputsOf.filter _)).2 fun o => ?_
  rw [List.mem_filterMap, List.mem_filter]
  constructor
  · rintro ⟨e, he, ho⟩
    obtain ⟨he, ht⟩ := List.mem_filter.1 he
    obtain ⟨hs, hk⟩ := hiff.1 ho
    have htype : l.coins.types[e.1]? = (outputIn? l.storedTxs e.1).map (·.type) :=
      h.reflects.type e.1
    rw [Std.ExtTreeMap.mem_toList_iff_getElem?_eq_some.1 he, ← h.output?_eq, ho] at htype
    have hot : e.2 = o.type := Option.some.inj htype
    exact ⟨hs, by rw [← hot]; exact ht⟩
  · rintro ⟨hs, ht⟩
    have htype : l.coins.types[o.key]? = (outputIn? l.storedTxs o.key).map (·.type) :=
      h.reflects.type o.key
    rw [h.distinct.outputIn?_eq_some_iff.2 ⟨hs, rfl⟩] at htype
    refine ⟨(o.key, o.type), List.mem_filter.2 ⟨?_, ht⟩, hiff.2 ⟨hs, rfl⟩⟩
    exact Std.ExtTreeMap.mem_toList_iff_getElem?_eq_some.2 htype

theorem totalIssued_eq (h : l.Indexed) :
    l.totalIssued = sumOf l.issued (outputsOf l.storedTxs) := by
  have hp := h.outputsOfType_perm .issuanceCandidate
  have hsum : l.totalIssued = sumOf (fun o => l.isIssued o.txId) l.issuanceCandidates := rfl
  rw [hsum, issuanceCandidates, sumOf_perm hp, sumOf_filter]
  rfl

theorem inputBudget_eq (h : l.Indexed) {inputs : List Input}
    (hn : (inputs.map Input.source).Nodup) :
    l.inputBudget inputs =
      sumOf (fun o => l.isUnspent o.key && decide (o.key ∈ inputs.map Input.source) &&
        l.carriesBsq o) (outputsOf l.storedTxs) := by
  have hmem {input : Input} {o : Output} : l.bsqInput? input = some o ↔
      (o ∈ outputsOf l.storedTxs ∧ o.key = input.source ∧ l.isUnspent input.source) ∧
        l.carriesBsq o := by
    rw [bsqInput?, Option.filter_eq_some_iff, h.unspent?_eq_some]
  have hnodup : (inputs.filterMap l.bsqInput?).Nodup := by
    refine List.pairwise_filterMap.2 ?_
    refine (List.pairwise_map.1 hn).imp fun {a b} hne o ho q hq he => hne ?_
    rw [← (hmem.1 ho).1.2.1, ← (hmem.1 hq).1.2.1, he]
  have hperm : (inputs.filterMap l.bsqInput?).Perm ((outputsOf l.storedTxs).filter fun o =>
      l.isUnspent o.key && decide (o.key ∈ inputs.map Input.source) && l.carriesBsq o) := by
    refine (List.perm_ext_iff_of_nodup hnodup (h.distinct.nodup_outputsOf.filter _)).2 fun o => ?_
    rw [List.mem_filterMap, List.mem_filter, Bool.and_eq_true, Bool.and_eq_true,
      decide_eq_true_eq, List.mem_map]
    constructor
    · rintro ⟨input, hi, ho⟩
      obtain ⟨⟨hs, hk, hu⟩, hc⟩ := hmem.1 ho
      exact ⟨hs, ⟨by rw [hk]; exact hu, input, hi, hk.symm⟩, hc⟩
    · rintro ⟨hs, ⟨hu, input, hi, hk⟩, hc⟩
      exact ⟨input, hi, hmem.2 ⟨⟨hs, hk.symm, by rw [hk]; exact hu⟩, hc⟩⟩
  exact total_perm (hperm.map _)

end Indexed

end Ledger

end DaoLedger
