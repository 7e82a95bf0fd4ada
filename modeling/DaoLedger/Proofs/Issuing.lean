import DaoLedger.Proofs.Circulation
import DaoLedger.Proofs.Coherence
import DaoLedger.Proofs.MeritStake
import DaoLedger.Proofs.Sorting
/-!
What was issued, by request and in total. Main statement: after any run the issued merits name each
issued request once, with the value of its one issuance candidate, and sum to the total issued, which
no stake exceeds.
-/
namespace DaoLedger

/-! ### Sums -/

theorem total_map_le {α : Type} {f g : α → Nat} {xs : List α} (h : ∀ x ∈ xs, f x ≤ g x) :
    total (xs.map f) ≤ total (xs.map g) := by
  induction xs with
  | nil => exact Nat.le_refl _
  | cons x xs ih =>
    have hfirst := h x List.mem_cons_self
    have hrest := ih fun y hy => h y (List.mem_cons_of_mem x hy)
    rw [List.map_cons, List.map_cons, total, total]
    omega

theorem sumOf_outputsOf (p : Output → Bool) (txs : List Tx) :
    sumOf p (outputsOf txs) = total (txs.map fun tx => sumOf p tx.outputs) := by
  induction txs with
  | nil => rfl
  | cons tx txs ih =>
    rw [List.map_cons, total, ← ih, ← sumOf_append]
    rfl

/-! ### The candidate of a request -/

theorem filter_eq_singleton {α : Type} {p : α → Bool} {xs : List α} {k : Nat} {x : α}
    (hk : xs[k]? = some x) (hx : p x) (h : ∀ (j : Nat) y, xs[j]? = some y → p y → j = k) :
    xs.filter p = [x] := by
  induction xs generalizing k with
  | nil => cases hk
  | cons y xs ih =>
    cases k with
    | zero =>
      obtain rfl : y = x := by simpa using hk
      have hrest : xs.filter p = [] := by
        refine List.filter_eq_nil_iff.2 fun z hz hp => ?_
        obtain ⟨j, hj⟩ := List.mem_iff_getElem?.1 hz
        cases h (j + 1) z hj hp
      rw [List.filter_cons_of_pos hx, hrest]
    | succ k =>
      have hy : ¬p y := fun hp => by cases h 0 y rfl hp
      rw [List.filter_cons_of_neg hy]
      exact ih hk fun j z hj hz => Nat.succ.inj (h (j + 1) z hj hz)

/-- A request has one issuance candidate, and no other transaction has any. -/
theorem Tx.Coherent.candidates {tx : Tx} (h : tx.Coherent) (ht : tx.type = .compensationRequest) :
    ∃ o, tx.outputs.filter (·.type = .issuanceCandidate) = [o] := by
  have hrole := h.roles .compensationRequest 1 .issuanceCandidate rfl
  obtain ⟨o, ho, htype⟩ := Option.map_eq_some_iff.1 ((hrole 1).2 ⟨rfl, ht⟩)
  refine ⟨o, filter_eq_singleton ho (decide_eq_true htype) fun j q hq hp => ?_⟩
  exact ((hrole j).1 (by rw [hq, Option.map_some, of_decide_eq_true hp])).1

/-! ### The order of merits -/

def Merit.Earlier (a b : Merit) : Prop :=
  a.chainHeight < b.chainHeight ∨ a.chainHeight = b.chainHeight ∧ a.txId.text < b.txId.text

theorem Merit.earlier_of_isLE {a b : Merit}
    (h : (compareLex (compareOn Merit.chainHeight) (compareOn Merit.txId) a b).isLE)
    (hne : a.txId ≠ b.txId) : a.Earlier b := by
  obtain h | ⟨he, h⟩ := Ordering.isLE_then_iff_or.1 h
  · exact .inl (Std.compare_eq_lt.1 h)
  · have hlt : compare a.txId b.txId = .lt := by
      obtain h | h := Ordering.isLE_iff_eq_lt_or_eq_eq.1 h
      · exact h
      · exact absurd (Std.LawfulEqOrd.eq_of_compare h) hne
    exact .inr ⟨Std.LawfulEqOrd.eq_of_compare he, compareOfLessAndEq_eq_lt.1 hlt⟩

namespace Ledger
variable {l l' : Ledger}

theorem requestWeight_le (l : Ledger) (height year : UInt32) (id : TxId) :
    l.requestWeight height year id ≤ (l.issuedAmount id).toNat := by
  unfold requestWeight meritWeight
  cases l.issuanceHeight? id with
  | none => exact Nat.zero_le _
  | some issued =>
    dsimp only
    by_cases hlater : height < issued
    · rw [if_pos hlater]
      exact Nat.zero_le _
    · rw [if_neg hlater]
      cases hw : weightedMerit (min (l.issuedAmount id).toNat meritLimit : Nat) issued.toNat
          height.toNat year.toNat with
      | error e => exact Nat.zero_le _
      | ok weight =>
        have hbounds := weightedMerit_bounds hw
        change weight.natAbs ≤ _
        omega

theorem amount_of_mem_issuedMerits {m : Merit} (h : m ∈ l.issuedMerits) :
    l.issuanceHeight? m.txId = some m.chainHeight ∧ m.amount = l.issuedAmount m.txId := by
  rw [issuedMerits, List.mem_mergeSort, List.mem_map] at h
  obtain ⟨⟨id, height⟩, he, rfl⟩ := h
  exact ⟨Std.ExtTreeMap.mem_toList_iff_getElem?_eq_some.1 he, rfl⟩

theorem amounts_issuedMerits (l : Ledger) :
    (l.issuedMerits.map (·.amount.toNat)).Perm
      (l.issuances.keys.map fun id => (l.issuedAmount id).toNat) := by
  have hamount : l.issuedMerits.map (·.amount.toNat) =
      (l.issuedMerits.map Merit.txId).map fun id => (l.issuedAmount id).toNat := by
    rw [List.map_map]
    exact List.map_congr_left fun m hm => by rw [(amount_of_mem_issuedMerits hm).2]; rfl
  rw [hamount]
  exact l.txIds_issuedMerits.map _

theorem count_issuedMerits (l : Ledger) (id : TxId) :
    (l.issuedMerits.map Merit.txId).count id = if l.isIssued id then 1 else 0 := by
  rw [l.txIds_issuedMerits.count_eq, isIssued]
  by_cases hid : id ∈ l.issuances
  · rw [List.count_eq_one_of_mem l.nodup_issued (Std.ExtTreeMap.mem_keys.2 hid)]
    simp [hid]
  · rw [List.count_eq_zero_of_not_mem (mt Std.ExtTreeMap.mem_keys.1 hid)]
    simp [hid]

theorem pairwise_issuedMerits (l : Ledger) : l.issuedMerits.Pairwise Merit.Earlier := by
  have hids : l.issuedMerits.Pairwise fun a b => a.txId ≠ b.txId :=
    List.pairwise_map.1 (l.txIds_issuedMerits.nodup_iff.2 l.nodup_issued)
  refine (pairwise_mergeSort_isLE _ _).imp₂ (fun a b => Merit.earlier_of_isLE) hids

/-! ### Runs -/

def IssuedRequested (l : Ledger) : Prop :=
  ∀ (id : TxId) h, l.issuances[id]? = some h →
    ∃ tx ∈ l.storedTxs, tx.id = id ∧ tx.type = .compensationRequest

theorem issuances_of_removeTip {block : Block} (hr : l.removeTip = some (block, l')) {id : TxId}
    {h : UInt32} (hid : l'.issuances[id]? = some h) :
    l.issuances[id]? = some h ∧ id ∉ block.txs.map Tx.id := by
  cases hc : l.chain with
  | nil => simp [removeTip, hc] at hr
  | cons b older =>
    simp only [removeTip, hc, Option.some.injEq, Prod.mk.injEq] at hr
    obtain ⟨rfl, rfl⟩ := hr
    rw [Std.ExtTreeMap.getElem?_filter', issuances_withdrawAll] at hid
    obtain ⟨hid, -⟩ := Option.filter_eq_some_iff.1 hid
    split at hid
    · cases hid
    · next hfresh => exact ⟨hid, hfresh⟩

theorem keeps_issuedRequested {cs : List Change} (hn : ∀ raw, .apply raw ∈ cs → raw.Named) :
    Keeps cs fun l => l.Indexed ∧ l.IssuedRequested where
  opened l raw hm hf h := by
    refine ⟨(Indexed.keeps hn).opened l raw hm hf h.1, fun id height hid => ?_⟩
    rw [storedTxs_opened]
    exact h.2 id height hid
  adopted l raw tx c hm htx hc hb ht h := by
    refine ⟨(Indexed.keeps hn).adopted l raw tx c hm htx hc hb ht h.1, fun id height hid => ?_⟩
    obtain ⟨t, hstored, hid⟩ := h.2 id height hid
    rw [storedTxs_adopted ht]
    exact ⟨t, List.mem_append_left _ hstored, hid⟩
  removed l b l' hr h := by
    refine ⟨(Indexed.keeps hn).removed l b l' hr h.1, fun id height hid => ?_⟩
    obtain ⟨hid, hfresh⟩ := issuances_of_removeTip hr hid
    obtain ⟨t, hstored, rfl, htype⟩ := h.2 id height hid
    rw [storedTxs_of_removeTip hr] at hstored
    have hkept := (List.mem_append.1 hstored).resolve_right fun ht =>
      hfresh (List.mem_map.2 ⟨t, ht, rfl⟩)
    exact ⟨t, hkept, rfl, htype⟩
  noted l change l' ha h := by
    refine ⟨(Indexed.keeps hn).noted l change l' ha h.1, ?_⟩
    have hs := storedTxs_of_addEvent ha
    obtain ⟨-, -, rfl⟩ := addEvent_eq_ok.1 ha
    intro id height hid
    rw [hs]
    exact h.2 id height hid
  issued l id height l' ha h := by
    refine ⟨(Indexed.keeps hn).issued l id height l' ha h.1, ?_⟩
    obtain ⟨htype, rfl⟩ := addIssuance_eq_ok.1 ha
    intro id' height' hid
    rw [Std.ExtTreeMap.getElem?_insert] at hid
    split at hid
    · next he =>
      have hfound := (h.1.reflects.txType id).symm.trans htype
      obtain ⟨t, ht, htype⟩ := Option.map_eq_some_iff.1 hfound
      have hid : t.id = id := by simpa using List.find?_some ht
      exact ⟨t, List.mem_of_find?_eq_some ht, hid.trans (Std.LawfulEqOrd.eq_of_compare he), htype⟩
    · exact h.2 id' height' hid

/-! ### The total -/

theorem issuedAmount_eq {tx : Tx} (htx : l.tx? tx.id = some tx) {o : Output}
    (ho : tx.outputs.filter (·.type = .issuanceCandidate) = [o]) : l.issuedAmount tx.id = o.value := by
  have hfind : tx.outputs.find? (·.type = .issuanceCandidate) = some o := by
    rw [← List.head?_filter, ho]
    rfl
  rw [issuedAmount, htx, Option.bind_some, hfind]
  rfl

/-- What was issued to a stored transaction. -/
theorem sumOf_issued {tx : Tx} (hn : tx.Named) (htx : l.tx? tx.id = some tx)
    (hcoherent : tx.Coherent) (htype : l.isIssued tx.id → tx.type = .compensationRequest) :
    sumOf l.issued tx.outputs = if l.isIssued tx.id then (l.issuedAmount tx.id).toNat else 0 := by
  have hid : ∀ o ∈ tx.outputs, o.txId = tx.id := by
    intro o ho
    obtain ⟨i, hi⟩ := List.mem_iff_getElem?.1 ho
    exact (hn.key_of_getElem? hi).1
  by_cases hissued : l.isIssued tx.id
  · obtain ⟨o, ho⟩ := hcoherent.candidates (htype hissued)
    have hsame : sumOf l.issued tx.outputs = sumOf (·.type = .issuanceCandidate) tx.outputs :=
      sumOf_congr fun q hq => by simp [issued, hid q hq, hissued]
    rw [hsame, sumOf, ho, if_pos hissued, issuedAmount_eq htx ho]
    rfl
  · rw [if_neg hissued]
    exact sumOf_eq_zero fun q hq => by simp [issued, hid q hq, hissued]

theorem storedRequest (hi : l.Indexed) (h : l.IssuedRequested) {id : TxId} (hid : l.isIssued id) :
    ∃ tx ∈ l.storedTxs, l.tx? id = some tx ∧ tx.id = id ∧ tx.type = .compensationRequest := by
  obtain ⟨height, hheight⟩ := Option.isSome_iff_exists.1
    (Std.ExtTreeMap.isSome_getElem?_iff_mem.2 (of_decide_eq_true hid))
  obtain ⟨tx, htx, rfl, htype⟩ := h id height hheight
  exact ⟨tx, htx, (hi.getElem?_txs _).trans (hi.distinct.find?_eq_some.2 ⟨htx, rfl⟩), rfl, htype⟩

theorem issuedIds_perm (hi : l.Indexed) (h : l.IssuedRequested) :
    ((l.storedTxs.filter fun tx => l.isIssued tx.id).map Tx.id).Perm l.issuances.keys := by
  have hnodup : ((l.storedTxs.filter fun tx => l.isIssued tx.id).map Tx.id).Nodup :=
    hi.distinct.ids.sublist (List.filter_sublist.map _)
  refine (List.perm_ext_iff_of_nodup hnodup l.nodup_issued).2 fun id => ?_
  rw [List.mem_map, Std.ExtTreeMap.mem_keys]
  constructor
  · rintro ⟨tx, htx, rfl⟩
    exact of_decide_eq_true (List.mem_filter.1 htx).2
  · intro hid
    obtain ⟨tx, htx, -, rfl, -⟩ := storedRequest hi h (decide_eq_true hid)
    exact ⟨tx, List.mem_filter.2 ⟨htx, decide_eq_true hid⟩, rfl⟩

theorem total_issuedMerits (hi : l.Indexed) (hc : l.Coherent) (h : l.IssuedRequested) :
    total (l.issuedMerits.map (·.amount.toNat)) = l.totalIssued := by
  have hstored (tx : Tx) (htx : tx ∈ l.storedTxs) : sumOf l.issued tx.outputs =
      if l.isIssued tx.id then (l.issuedAmount tx.id).toNat else 0 := by
    have hfound : l.tx? tx.id = some tx :=
      (hi.getElem?_txs _).trans (hi.distinct.find?_eq_some.2 ⟨htx, rfl⟩)
    refine sumOf_issued (hi.distinct.named tx htx) hfound (hc.storedTxs tx htx) fun hid => ?_
    obtain ⟨t, -, ht, -, htype⟩ := storedRequest hi h hid
    rw [← Option.some.inj (ht.symm.trans hfound), htype]
  have hissued (tx : Tx) : ¬l.isIssued tx.id →
      (if l.isIssued tx.id then (l.issuedAmount tx.id).toNat else 0) = 0 := fun hid => if_neg hid
  calc total (l.issuedMerits.map (·.amount.toNat))
      = total (l.issuances.keys.map fun id => (l.issuedAmount id).toNat) :=
        total_perm l.amounts_issuedMerits
    _ = total (((l.storedTxs.filter fun tx => l.isIssued tx.id).map Tx.id).map fun id =>
          (l.issuedAmount id).toNat) := (total_perm ((issuedIds_perm hi h).map _)).symm
    _ = total ((l.storedTxs.filter fun tx => l.isIssued tx.id).map fun tx =>
          if l.isIssued tx.id then (l.issuedAmount tx.id).toNat else 0) := by
        rw [List.map_map]
        congr 1
        refine List.map_congr_left fun tx htx => ?_
        exact (if_pos (List.mem_filter.1 htx).2).symm
    _ = total (l.storedTxs.map fun tx => sumOf l.issued tx.outputs) := by
        rw [total_filter hissued, List.map_congr_left hstored]
    _ = l.totalIssued := by rw [hi.totalIssued_eq, sumOf_outputsOf]

theorem meritStake_issuedMerits_le (l : Ledger) (height : UInt32) {year : UInt32} (hy : 0 < year) :
    ∃ stake, l.meritStake l.issuedMerits height year = .ok stake ∧
      stake ≤ total (l.issuedMerits.map (·.amount.toNat)) := by
  refine ⟨_, l.meritStake_eq l.issuedMerits height hy, Nat.le_trans (Nat.min_le_left ..) ?_⟩
  refine total_map_le fun m hm => ?_
  rw [(amount_of_mem_issuedMerits hm).2]
  exact l.requestWeight_le height year m.txId

/-- After any run the issued merits and the total issued are two accounts of the same requests. -/
theorem issuedMerits_of_changes (g : Genesis) (cs : List Change)
    (hn : ∀ raw, .apply raw ∈ cs → raw.Named) :
    let l := (Ledger.new g).changeAll cs
    (∀ id, (l.issuedMerits.map Merit.txId).count id = if l.isIssued id then 1 else 0) ∧
      (∀ m ∈ l.issuedMerits, l.issuanceHeight? m.txId = some m.chainHeight ∧
        ∃ tx ∈ l.storedTxs, tx.id = m.txId ∧ tx.type = .compensationRequest ∧
          ∃ o, tx.outputs.filter (·.type = .issuanceCandidate) = [o] ∧ m.amount = o.value) ∧
      l.issuedMerits.Pairwise Merit.Earlier ∧
      total (l.issuedMerits.map (·.amount.toNat)) = l.totalIssued ∧
      ∀ height year, 0 < year →
        ∃ stake, l.meritStake l.issuedMerits height year = .ok stake ∧ stake ≤ l.totalIssued := by
  intro l
  obtain ⟨hi, hrequested⟩ : l.Indexed ∧ l.IssuedRequested :=
    (keeps_issuedRequested hn).changeAll ⟨.new g, by simp [IssuedRequested, Ledger.new]⟩
  have hcoherent : l.Coherent := (Coherent.new g).changeAll cs
  have htotal := total_issuedMerits hi hcoherent hrequested
  refine ⟨l.count_issuedMerits, fun m hm => ?_, l.pairwise_issuedMerits, htotal, ?_⟩
  · obtain ⟨hheight, hamount⟩ := amount_of_mem_issuedMerits hm
    have hissued : l.isIssued m.txId := decide_eq_true
      (Std.ExtTreeMap.isSome_getElem?_iff_mem.1 (Option.isSome_of_eq_some hheight))
    obtain ⟨tx, htx, hfound, hid, htype⟩ := storedRequest hi hrequested hissued
    obtain ⟨o, ho⟩ := (hcoherent.storedTxs tx htx).candidates htype
    refine ⟨hheight, tx, htx, hid, htype, o, ho, ?_⟩
    rw [hamount, ← hid]
    exact issuedAmount_eq (hid ▸ hfound) ho
  · intro height year hyear
    rw [← htotal]
    exact l.meritStake_issuedMerits_le height hyear

theorem issuedMerits_sampleRequest :
    let cs : List Change := [.apply Sample.first, .issue ⟨"g"⟩ 10, .issue ⟨"r"⟩ 10,
      .apply Sample.clash, .apply Sample.second]
    let l := (Ledger.new Sample.genesis).changeAll cs
    (∀ raw, .apply raw ∈ cs → raw.Named) ∧ l.issuedMerits = [⟨⟨"r"⟩, 10, 5000⟩] ∧
      (0 : UInt32) < 50000 ∧ l.totalIssued = 5000 ∧
      ∃ stake, l.meritStake l.issuedMerits 50010 50000 = .ok stake ∧ stake ≤ l.totalIssued := by
  intro cs l
  have hnamed : ∀ raw ∈ [Sample.first, Sample.clash, Sample.second], raw.Named := by decide
  have hn : ∀ raw, .apply raw ∈ cs → raw.Named := by
    intro raw hraw
    refine hnamed raw ?_
    simpa [cs] using hraw
  have hmerits : l.issuedMerits = [⟨⟨"r"⟩, 10, 5000⟩] := by decide +kernel
  obtain ⟨-, -, -, htotal, hstake⟩ := issuedMerits_of_changes Sample.genesis cs hn
  rw [hmerits] at htotal
  exact ⟨hn, hmerits, by decide, htotal.symm, hstake 50010 50000 (by decide)⟩

end Ledger

end DaoLedger
