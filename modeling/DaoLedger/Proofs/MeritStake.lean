import Mathlib.Data.List.Perm.Subperm
import DaoLedger.Classify.Block
import DaoLedger.Governance.Merit
import DaoLedger.Proofs.Amounts
import DaoLedger.Proofs.Applying
import DaoLedger.Proofs.Decay
/-!
The stake that a list of merits gives. Main statements: it is at most as many times the stake of all
issued requests as the list names one of them; so a list that names none twice cannot exceed what
was issued. And it depends on nothing but which requests are named that count at the height.
-/
namespace DaoLedger

/-! ### Sums -/

theorem total_le_of_sublist {a b : List Nat} (h : a.Sublist b) : total a ≤ total b := by
  induction h with
  | slnil => exact Nat.le_refl _
  | cons n h ih => exact Nat.le_trans ih (Nat.le_add_left ..)
  | cons_cons n h ih => exact Nat.add_le_add_left ih n

theorem total_copies (k : Nat) (ns : List Nat) :
    total (List.replicate k ns).flatten = k * total ns := by
  induction k with
  | zero => simp [total]
  | succ k ih =>
    rw [List.replicate_succ, List.flatten_cons, total_append, ih, Nat.succ_mul, Nat.add_comm]

section
variable {α : Type} {p : α → Bool} {weight : α → Nat}

theorem total_filter (h : ∀ x, ¬p x → weight x = 0) (xs : List α) :
    total ((xs.filter p).map weight) = total (xs.map weight) := by
  induction xs with
  | nil => rfl
  | cons x xs ih =>
    rw [List.map_cons, total]
    by_cases hx : p x
    · rw [List.filter_cons_of_pos hx, List.map_cons, total, ih]
    · rw [List.filter_cons_of_neg hx, ih, h x hx, Nat.zero_add]

theorem total_le_mul [DecidableEq α] {keys xs : List α} {k : Nat} (hn : keys.Nodup)
    (h : ∀ x ∉ keys, weight x = 0) (hk : ∀ x ∈ keys, xs.count x ≤ k) :
    total (xs.map weight) ≤ k * total (keys.map weight) := by
  have hsub : (xs.filter (· ∈ keys)).Subperm (List.replicate k keys).flatten := by
    refine List.subperm_iff_count.2 fun x => ?_
    rw [List.count_flatten, List.map_replicate, List.sum_replicate_nat]
    by_cases hx : x ∈ keys
    · rw [List.count_filter (by simpa using hx), List.count_eq_one_of_mem hn hx, Nat.mul_one]
      exact hk x hx
    · rw [List.count_eq_zero_of_not_mem fun hm => hx (by simpa using (List.mem_filter.1 hm).2)]
      exact Nat.zero_le _
  obtain ⟨part, hperm, hpart⟩ := hsub
  calc total (xs.map weight)
      = total ((xs.filter (· ∈ keys)).map weight) :=
        (total_filter (fun x hx => h x (by simpa using hx)) xs).symm
    _ = total (part.map weight) := total_perm (hperm.symm.map _)
    _ ≤ total ((List.replicate k keys).flatten.map weight) := total_le_of_sublist (hpart.map _)
    _ = k * total (keys.map weight) := by
      rw [List.map_flatten, List.map_replicate, total_copies]

end

theorem min_le_mul_min {a b k limit : Nat} (h : a ≤ k * b) :
    min a limit ≤ k * min b limit := by
  by_cases hb : b ≤ limit
  · rw [Nat.min_eq_left hb]
    exact Nat.le_trans (Nat.min_le_left ..) h
  · rw [Nat.min_eq_right (Nat.le_of_not_le hb)]
    cases k with
    | zero => omega
    | succ k => exact Nat.le_trans (Nat.min_le_right ..) (Nat.le_mul_of_pos_left _ k.succ_pos)

/-! ### Weights -/

namespace Ledger
variable {l : Ledger} {height year : UInt32}

/-- The weight of a request, whatever a merit says about it. -/
def requestWeight (l : Ledger) (height year : UInt32) (txId : TxId) : Nat :=
  match l.meritWeight height year ⟨txId, 0, 0⟩ with
  | .ok weight => weight
  | .error _ => 0

theorem meritWeight_eq (l : Ledger) (height : UInt32) (hy : 0 < year) (merit : Merit) :
    l.meritWeight height year merit = .ok (l.requestWeight height year merit.txId) := by
  have hok : ∃ weight, l.meritWeight height year merit = .ok weight := by
    unfold meritWeight
    split
    · exact ⟨0, rfl⟩
    · next issued _ =>
      split
      · exact ⟨0, rfl⟩
      · next hle =>
        have hle := UInt32.le_iff_toNat_le.1 (UInt32.not_lt.1 hle)
        have hy := UInt32.lt_iff_toNat_lt.1 hy
        rw [UInt32.toNat_zero] at hy
        exact ⟨_, by rw [weightedMerit_eq ⟨by omega, by omega, by omega, by omega⟩]; rfl⟩
  obtain ⟨weight, hw⟩ := hok
  -- Only the id of a merit is read.
  have hsame : l.meritWeight height year ⟨merit.txId, 0, 0⟩ = .ok weight := hw
  rw [hw, requestWeight, hsame]

def counts (l : Ledger) (height : UInt32) (txId : TxId) : Bool :=
  (l.issuanceHeight? txId).any (· ≤ height)

theorem requestWeight_of_not_counts {txId : TxId} (h : ¬l.counts height txId) :
    l.requestWeight height year txId = 0 := by
  unfold requestWeight meritWeight
  cases hissued : l.issuanceHeight? txId with
  | none => rfl
  | some issued =>
    have hlater : height < issued := by simpa [counts, hissued] using h
    simp only [if_pos hlater]

theorem requestWeight_of_not_issued {txId : TxId} (h : txId ∉ l.issuances) :
    l.requestWeight height year txId = 0 := by
  have hnone : l.issuanceHeight? txId = none := Std.ExtTreeMap.getElem?_eq_none h
  exact requestWeight_of_not_counts (by simp [counts, hnone])

/-- The sum of the weights, each as often as it is named, kept within the limit. -/
theorem meritStake_eq (l : Ledger) (merits : List Merit) (height : UInt32) (hy : 0 < year) :
    l.meritStake merits height year =
      .ok (min (total (merits.map fun m => l.requestWeight height year m.txId)) stakeLimit) := by
  have key (acc : Nat) (hacc : acc ≤ stakeLimit) :
      merits.foldlM (fun total merit => do
          let weight ← l.meritWeight height year merit
          return min (total + weight) stakeLimit) acc =
        .ok (min (acc + total (merits.map fun m => l.requestWeight height year m.txId))
          stakeLimit) := by
    induction merits generalizing acc with
    | nil =>
      rw [List.map_nil, total, Nat.add_zero, Nat.min_eq_left hacc]
      rfl
    | cons m merits ih =>
      rw [List.foldlM_cons, meritWeight_eq l height hy m]
      refine (ih _ (Nat.min_le_right ..)).trans ?_
      rw [List.map_cons, total]
      congr 1
      omega
  rw [meritStake, key 0 (Nat.zero_le _), Nat.zero_add]

/-- The requests that a list names and that count, each as often as it is named. -/
def counted (l : Ledger) (height : UInt32) (merits : List Merit) : List TxId :=
  (merits.map Merit.txId).filter (l.counts height)

theorem total_counted (l : Ledger) (height year : UInt32) (merits : List Merit) :
    total ((l.counted height merits).map (l.requestWeight height year)) =
      total (merits.map fun m => l.requestWeight height year m.txId) := by
  rw [counted, total_filter fun _ => requestWeight_of_not_counts, List.map_map]
  rfl

theorem txIds_issuedMerits (l : Ledger) :
    (l.issuedMerits.map Merit.txId).Perm l.issuances.keys := by
  refine ((List.mergeSort_perm _ _).map _).trans (.of_eq ?_)
  rw [List.map_map, ← Std.ExtTreeMap.map_fst_toList_eq_keys]
  rfl

theorem nodup_issued (l : Ledger) : l.issuances.keys.Nodup :=
  Std.ExtTreeMap.nodup_keys

/-- A voter who names no issued request twice has at most the merit that was issued. -/
theorem meritStake_le_mul (l : Ledger) (merits : List Merit) (height year : UInt32) (k : Nat)
    (hyear : 0 < year) (hk : ∀ id ∈ l.issuances, (merits.map Merit.txId).count id ≤ k) :
    ∃ stake issued, l.meritStake merits height year = .ok stake ∧
      l.meritStake l.issuedMerits height year = .ok issued ∧ stake ≤ k * issued := by
  refine ⟨_, _, l.meritStake_eq merits height hyear, l.meritStake_eq l.issuedMerits height hyear,
    min_le_mul_min ?_⟩
  have hissued := total_perm (l.txIds_issuedMerits.map (l.requestWeight height year))
  rw [List.map_map] at hissued
  have hzero : ∀ id ∉ l.issuances.keys, l.requestWeight height year id = 0 := fun id h =>
    requestWeight_of_not_issued fun hm => h (Std.ExtTreeMap.mem_keys.2 hm)
  have hsum := total_le_mul l.nodup_issued hzero fun id h => hk id (Std.ExtTreeMap.mem_keys.1 h)
  rw [List.map_map, ← hissued] at hsum
  exact hsum

def sampleMerits : List Merit := [⟨⟨"x"⟩, 10, 70000⟩, ⟨⟨"r"⟩, 3, 90000⟩]

theorem meritStake_sampleMerits :
    let l := (Ledger.new Sample.genesis).changeAll [.apply Sample.first, .issue ⟨"r"⟩ 10]
    (0 : UInt32) < 50000 ∧ l.issuances.keys = [⟨"r"⟩] ∧
      (∀ id ∈ l.issuances, (sampleMerits.map Merit.txId).count id ≤ 1) ∧
      l.meritStake sampleMerits 50010 50000 = .ok 2500 ∧
      ∃ stake issued, l.meritStake sampleMerits 50010 50000 = .ok stake ∧
        l.meritStake l.issuedMerits 50010 50000 = .ok issued ∧ stake ≤ 1 * issued := by
  intro l
  have hkeys : l.issuances.keys = [⟨"r"⟩] := by decide +kernel
  have hk : ∀ id ∈ l.issuances, (sampleMerits.map Merit.txId).count id ≤ 1 := by
    intro id hid
    rw [← Std.ExtTreeMap.mem_keys, hkeys, List.mem_singleton] at hid
    rw [hid]
    decide
  exact ⟨by decide, hkeys, hk, by decide +kernel,
    meritStake_le_mul l sampleMerits 50010 50000 1 (by decide) hk⟩

theorem repeated_merit_counts_twice :
    let l := (Ledger.new Sample.genesis).changeAll [.apply Sample.first, .issue ⟨"r"⟩ 10]
    ¬∀ merits stake issued, l.meritStake merits 10 50000 = .ok stake →
      l.meritStake l.issuedMerits 10 50000 = .ok issued → stake ≤ issued := by
  intro l h
  have htwice : l.meritStake (l.issuedMerits ++ l.issuedMerits) 10 50000 = .ok 10000 := by
    decide +kernel
  have honce : l.meritStake l.issuedMerits 10 50000 = .ok 5000 := by decide +kernel
  exact absurd (h _ _ _ htwice honce) (by decide)

/-- The stake depends on the requests that count and not on their order nor on what a merit says
about them; two lists together have the sum of their stakes, kept within the limit. -/
theorem meritStake_of_counted (l : Ledger) (height year : UInt32) (merits merits' : List Merit)
    (hyear : 0 < year) :
    ∃ stake stake', l.meritStake merits height year = .ok stake ∧
      l.meritStake merits' height year = .ok stake' ∧
      l.meritStake (merits ++ merits') height year = .ok (min (stake + stake') stakeLimit) ∧
      ((l.counted height merits).Perm (l.counted height merits') → stake = stake') := by
  refine ⟨_, _, l.meritStake_eq merits height hyear, l.meritStake_eq merits' height hyear, ?_, ?_⟩
  · rw [l.meritStake_eq _ height hyear, List.map_append, total_append]
    congr 1
    omega
  · intro hsame
    rw [← l.total_counted, ← l.total_counted, total_perm (hsame.map _)]

def sampleRequests : RawBlock :=
  { Sample.first with
    txs := [Sample.supply, Sample.request,
      { Sample.request with
        id := ⟨"s"⟩
        inputs := [Sample.input "g" 0]
        outputs := [Sample.output "s" 0 400, Sample.output "s" 1 300,
          { Sample.output "s" 2 0 with payload := some (0x11 :: 1 :: List.replicate 20 0) }] }] }

theorem meritStake_sampleRequests :
    let l := (Ledger.new Sample.genesis).changeAll
      [.apply sampleRequests, .issue ⟨"r"⟩ 10, .issue ⟨"s"⟩ 60000]
    let merits : List Merit := [⟨⟨"r"⟩, 10, 5000⟩, ⟨⟨"s"⟩, 60000, 300⟩]
    l.issuances.keys = [⟨"r"⟩, ⟨"s"⟩] ∧ (0 : UInt32) < 50000 ∧
      (l.counted 50010 sampleMerits).Perm (l.counted 50010 merits) ∧
      l.meritStake sampleMerits 50010 50000 = .ok 2500 ∧
      l.meritStake merits 50010 50000 = .ok 2500 ∧
      l.meritStake (sampleMerits ++ merits) 50010 50000 = .ok 5000 := by
  intro l merits
  have hsame : (l.counted 50010 sampleMerits).Perm (l.counted 50010 merits) := by decide +kernel
  have hstake : l.meritStake sampleMerits 50010 50000 = .ok 2500 := by decide +kernel
  obtain ⟨stake, stake', hfalse, htrue, hboth, heq⟩ :=
    meritStake_of_counted l 50010 50000 sampleMerits merits (by decide)
  obtain rfl := heq hsame
  obtain rfl : stake = 2500 := Except.ok.inj (hfalse.symm.trans hstake)
  exact ⟨by decide +kernel, by decide, hsame, hfalse, htrue, hboth⟩

end Ledger

end DaoLedger
