import DaoLedger.Proofs.Agreement
import DaoLedger.Proofs.Circulation
import DaoLedger.Proofs.Sorting
/-!
Lists of outputs of one type. Main statement: they have exactly the stored outputs of that type, or
those of them that are unspent, in strictly increasing order. So nodes with equal maps give equal
lists, in whatever order they go through their maps.
-/
namespace DaoLedger

/-! ### Unspent outputs -/

section
variable {txs : List Tx} {key : OutputKey} {o : Output}

/-- A stored output that no transaction after its own names with an input. -/
def Unspent (txs : List Tx) (o : Output) : Prop :=
  o ∈ outputsOf txs ∧ ∀ older tx newer, txs = older ++ tx :: newer → o ∈ outputsOf older →
    o.key ∉ tx.inputs.map Input.source

theorem Distinct.mem_spent_iff (h : Distinct txs) :
    key ∈ (Indices.of txs).coins.spent ↔ ∃ older tx newer, txs = older ++ tx :: newer ∧
      (outputIn? older key).isSome ∧ key ∈ tx.inputs.map Input.source := by
  constructor
  · intro hs
    obtain ⟨info, hi⟩ := Option.isSome_iff_exists.1 (Std.ExtTreeMap.isSome_getElem?_iff_mem.2 hs)
    obtain ⟨older, tx, newer, hsplit, ho, -, -, hj⟩ := h.reflects.spent key info hi
    exact ⟨older, tx, newer, hsplit, ho, Coins.spender?_isSome.1 (by rw [hj]; rfl)⟩
  · induction txs using List.reverseRecOn with
    | nil =>
      rintro ⟨older, tx, newer, hsplit, -⟩
      simp at hsplit
    | append_singleton txs last ih =>
      rintro ⟨older, tx, newer, hsplit, ho, hnamed⟩
      have hd := (distinct_append_one.1 h).1
      rw [Indices.of_append_one, Indices.Reflects.mem_spent_enter]
      rcases append_one_eq_append_cons hsplit with ⟨rfl, rfl⟩ | ⟨newer', rfl⟩
      · by_cases hs : key ∈ (Indices.of older).coins.spent
        · exact .inl hs
        · refine .inr ⟨?_, Coins.spender?_isSome.2 hnamed⟩
          rw [← Std.ExtTreeMap.isSome_getElem?_iff_mem, hd.reflects.unspent, if_neg hs]
          exact ho
      · exact .inl (ih hd ⟨older, tx, newer', rfl, ho, hnamed⟩)

end

namespace Ledger
variable {l l' : Ledger} {o : Output}

theorem Indexed.unspent_iff (h : l.Indexed) :
    o ∈ outputsOf l.storedTxs ∧ l.isUnspent o.key ↔ Unspent l.storedTxs o := by
  have hspent : l.spentInfo? o.key = none ↔ o.key ∉ (Indices.of l.storedTxs).coins.spent := by
    rw [← h.indices, ← Std.ExtTreeMap.isSome_getElem?_iff_mem, Option.not_isSome_iff_eq_none]
    rfl
  rw [h.isUnspent_iff, hspent, h.distinct.mem_spent_iff]
  constructor
  · rintro ⟨ho, hnone, -⟩
    refine ⟨ho, fun older tx newer hs hmem hnamed => hnone ⟨older, tx, newer, hs, ?_, hnamed⟩⟩
    have hd : Distinct older := (hs ▸ h.distinct).of_append
    rw [hd.mem_outputsOf.1 hmem]
    rfl
  · rintro ⟨ho, hnone⟩
    have hknown := h.distinct.mem_outputsOf.1 ho
    refine ⟨ho, ?_, by rw [hknown]; rfl⟩
    rintro ⟨older, tx, newer, hs, hsome, hnamed⟩
    refine hnone older tx newer hs ?_ hnamed
    -- The key is known before `tx`, and it names no other output than this one.
    obtain ⟨q, hq⟩ := Option.isSome_iff_exists.1 hsome
    have hd : Distinct older := (hs ▸ h.distinct).of_append
    have hsame : o = q := Option.some.inj (hknown.symm.trans (hs ▸ outputIn?_append hq))
    exact hsame ▸ (hd.outputIn?_eq_some_iff.1 hq).1

/-! ### The order of the lists -/

def Before (a b : Output) : Prop :=
  a.blockHeight < b.blockHeight ∨ a.blockHeight = b.blockHeight ∧
    (a.txId.text < b.txId.text ∨ a.txId = b.txId ∧ a.index < b.index)

def compareOutputs : Output → Output → Ordering :=
  compareLex (compareOn fun o : Output => o.blockHeight) (compareOn Output.key)

instance : Std.TransCmp compareOutputs :=
  inferInstanceAs (Std.TransCmp (compareLex (compareOn fun o : Output => o.blockHeight)
    (compareOn Output.key)))

theorem key_eq_of_compareOutputs {a b : Output} (h : compareOutputs a b = .eq) : a.key = b.key :=
  Std.LawfulEqOrd.eq_of_compare (Ordering.then_eq_eq.1 h).2

theorem before_of_compareOutputs {a b : Output} (h : compareOutputs a b = .lt) : Before a b := by
  rcases Ordering.then_eq_lt.1 h with hheight | ⟨hheight, hkey⟩
  · exact .inl (compareOfLessAndEq_eq_lt.1 hheight)
  · refine .inr ⟨Std.LawfulEqOrd.eq_of_compare hheight, ?_⟩
    rcases Ordering.then_eq_lt.1 hkey with hid | ⟨hid, hindex⟩
    · exact .inl (compareOfLessAndEq_eq_lt.1 hid)
    · exact .inr ⟨Std.LawfulEqOrd.eq_of_compare hid, compareOfLessAndEq_eq_lt.1 hindex⟩

theorem eq_of_compareOutputs {txs : List Tx} (hd : Distinct txs) {a b : Output}
    (ha : a ∈ outputsOf txs) (hb : b ∈ outputsOf txs) (h : compareOutputs a b = .eq) : a = b := by
  have hka := hd.mem_outputsOf.1 ha
  rw [key_eq_of_compareOutputs h, hd.mem_outputsOf.1 hb] at hka
  exact (Option.some.inj hka).symm

/-- A list that has just the outputs with a property, each once, in strictly increasing order. -/
structure Lists (outputs : List Output) (P : Output → Prop) : Prop where
  mem : ∀ o, o ∈ outputs ↔ P o
  once : outputs.Nodup
  increasing : outputs.Pairwise Before

section
variable {txs : List Tx} {outputs others : List Output} {p : Output → Bool}

theorem lists_of_perm (hd : Distinct txs) (hp : outputs.Perm ((outputsOf txs).filter p)) :
    Lists (outputs.mergeSort precedes) fun o => o ∈ outputsOf txs ∧ p o := by
  have hsort : (outputs.mergeSort precedes).Perm ((outputsOf txs).filter p) :=
    (List.mergeSort_perm outputs precedes).trans hp
  have hmem (o : Output) : o ∈ outputs.mergeSort precedes ↔ o ∈ outputsOf txs ∧ p o :=
    hsort.mem_iff.trans List.mem_filter
  have honce : (outputs.mergeSort precedes).Nodup :=
    hsort.nodup_iff.2 (hd.nodup_outputsOf.filter _)
  have hsorted : (outputs.mergeSort precedes).Pairwise fun a b => (compareOutputs a b).isLE :=
    pairwise_mergeSort_isLE compareOutputs outputs
  refine ⟨hmem, honce, (hsorted.and honce).imp_of_mem ?_⟩
  rintro a b ha hb ⟨hle, hne⟩
  cases hc : compareOutputs a b with
  | lt => exact before_of_compareOutputs hc
  | eq => exact absurd (eq_of_compareOutputs hd ((hmem a).1 ha).1 ((hmem b).1 hb).1 hc) hne
  | gt =>
    rw [hc] at hle
    cases hle

theorem mergeSort_precedes_eq (hd : Distinct txs) (hp : outputs.Perm ((outputsOf txs).filter p))
    (ho : others.Perm outputs) : others.mergeSort precedes = outputs.mergeSort precedes := by
  have hstored (o : Output) (hm : o ∈ others) : o ∈ outputsOf txs :=
    (List.mem_filter.1 ((ho.trans hp).mem_iff.1 hm)).1
  exact (mergeSort_isLE_eq_iff compareOutputs fun a ha b hb hc =>
    eq_of_compareOutputs hd (hstored a ha) (hstored b hb) hc).2 ho

end

/-! ### The queries -/

/-- The unspent outputs of a type, from the entries of the map in any order. -/
def unspentAmong (entries : List (OutputKey × Output)) (type : OutputType) : List Output :=
  ((entries.map (·.2)).filter (·.type = type)).mergeSort precedes

/-- The outputs of a type, from the entries of the map of types in any order. -/
def outputsAmong (l : Ledger) (entries : List (OutputKey × OutputType)) (type : OutputType) :
    List Output :=
  ((entries.filter (·.2 = type)).filterMap fun entry => l.output? entry.1).mergeSort precedes

theorem unspentOfType_eq (l : Ledger) (type : OutputType) :
    l.unspentOfType type = unspentAmong l.coins.unspent.toList type := rfl

theorem outputsOfType_eq (l : Ledger) (type : OutputType) :
    l.outputsOfType type = l.outputsAmong l.coins.types.toList type := rfl

namespace Indexed

theorem unspentAmong_perm (h : l.Indexed) (type : OutputType) :
    ((l.coins.unspent.toList.map (·.2)).filter (·.type = type)).Perm
      ((outputsOf l.storedTxs).filter fun o => o.type = type && l.isUnspent o.key) := by
  rw [← List.filter_filter]
  exact h.unspent_perm.filter _

theorem outputsAmong_perm (h : l.Indexed) (type : OutputType) :
    ((l.coins.types.toList.filter (·.2 = type)).filterMap fun e => l.output? e.1).Perm
      ((outputsOf l.storedTxs).filter (·.type = type)) :=
  (List.mergeSort_perm _ _).symm.trans (h.outputsOfType_perm type)

theorem lists_unspentOfType (h : l.Indexed) (type : OutputType) :
    Lists (l.unspentOfType type) fun o => Unspent l.storedTxs o ∧ o.type = type := by
  have hlists := lists_of_perm h.distinct (h.unspentAmong_perm type)
  refine ⟨fun o => (hlists.mem o).trans ?_, hlists.once, hlists.increasing⟩
  rw [← h.unspent_iff, Bool.and_eq_true, decide_eq_true_eq]
  exact ⟨fun ⟨ho, ht, hu⟩ => ⟨⟨ho, hu⟩, ht⟩, fun ⟨⟨ho, hu⟩, ht⟩ => ⟨ho, ht, hu⟩⟩

theorem lists_outputsOfType (h : l.Indexed) (type : OutputType) :
    Lists (l.outputsOfType type) fun o => o ∈ outputsOf l.storedTxs ∧ o.type = type := by
  have hlists := lists_of_perm h.distinct (h.outputsAmong_perm type)
  refine ⟨fun o => (hlists.mem o).trans ?_, hlists.once, hlists.increasing⟩
  rw [decide_eq_true_eq]

theorem unspentAmong_eq (h : l.Indexed) {entries : List (OutputKey × Output)}
    (hp : entries.Perm l.coins.unspent.toList) (type : OutputType) :
    unspentAmong entries type = l.unspentOfType type := by
  rw [unspentOfType_eq]
  exact mergeSort_precedes_eq h.distinct (h.unspentAmong_perm type) ((hp.map _).filter _)

theorem outputsAmong_eq (h : l.Indexed) (htxs : l'.txs = l.txs)
    {entries : List (OutputKey × OutputType)} (hp : entries.Perm l.coins.types.toList)
    (type : OutputType) : l'.outputsAmong entries type = l.outputsOfType type := by
  have houtput : l'.output? = l.output? := by
    funext key
    rw [output?, output?, tx?, tx?, htxs]
  rw [outputsOfType_eq, outputsAmong, houtput]
  exact mergeSort_precedes_eq h.distinct (h.outputsAmong_perm type) ((hp.filter _).filterMap _)

end Indexed

/-- Whatever the ledger of another node has been through, its maps decide what it lists. -/
theorem lists_of_writes (g : Genesis) (ws : List Write) (hn : ∀ tx, .addTx tx ∈ ws → tx.Named) :
    let l := (Ledger.new g).writeAll ws
    Lists l.lockedStakes (fun o => Unspent l.storedTxs o ∧ o.type = .blindVoteLockStake) ∧
      Lists l.lockedBonds (fun o => Unspent l.storedTxs o ∧ o.type = .bondLock) ∧
      Lists l.revealOutputs
        (fun o => o ∈ outputsOf l.storedTxs ∧ o.type = .voteRevealOpReturn) ∧
      Lists l.issuanceCandidates
        (fun o => o ∈ outputsOf l.storedTxs ∧ o.type = .issuanceCandidate) ∧
      ∀ (other : Ledger) unspent types, other.coins = l.coins → other.txs = l.txs →
        unspent.Perm other.coins.unspent.toList → types.Perm other.coins.types.toList →
          unspentAmong unspent .blindVoteLockStake = l.lockedStakes ∧
          unspentAmong unspent .bondLock = l.lockedBonds ∧
          other.outputsAmong types .voteRevealOpReturn = l.revealOutputs ∧
          other.outputsAmong types .issuanceCandidate = l.issuanceCandidates := by
  intro l
  have h : l.Indexed := (Indexed.new g).writeAll hn
  refine ⟨h.lists_unspentOfType _, h.lists_unspentOfType _, h.lists_outputsOfType _,
    h.lists_outputsOfType _, ?_⟩
  intro other unspent types hcoins htxs hunspent htypes
  rw [hcoins] at hunspent htypes
  exact ⟨h.unspentAmong_eq hunspent _, h.unspentAmong_eq hunspent _,
    h.outputsAmong_eq htxs htypes _, h.outputsAmong_eq htxs htypes _⟩

def sampleTyped : List Write :=
  let output (id : String) (index : UInt32) (type : OutputType) : Output :=
    ⟨Sample.output id index 5, type⟩
  let tx (id : String) (inputs : List Input) : Tx :=
    { id := ⟨id⟩, blockHeight := 10, blockHash := ⟨"a"⟩, time := 0, inputs
      outputs := [output id 0 .blindVoteLockStake, output id 1 .bondLock,
        output id 2 .issuanceCandidate, output id 3 .voteRevealOpReturn]
      type := .undefined, burntFee := 0 }
  [.start Sample.first, .addTx (tx "z" []), .addTx (tx "y" [Sample.input "z" 0])]

theorem lists_sampleTyped :
    let l := (Ledger.new Sample.genesis).writeAll sampleTyped
    (∀ tx, .addTx tx ∈ sampleTyped → tx.Named) ∧
      l.lockedStakes.map Output.key = [⟨⟨"y"⟩, 0⟩] ∧
      l.lockedBonds.map Output.key = [⟨⟨"y"⟩, 1⟩, ⟨⟨"z"⟩, 1⟩] ∧
      (unspentAmong l.coins.unspent.toList.reverse .bondLock).map Output.key =
        [⟨⟨"y"⟩, 1⟩, ⟨⟨"z"⟩, 1⟩] ∧
      Lists l.issuanceCandidates
        (fun o => o ∈ outputsOf l.storedTxs ∧ o.type = .issuanceCandidate) := by
  intro l
  have hn : ∀ tx, .addTx tx ∈ sampleTyped → tx.Named := by
    intro tx htx
    simp only [sampleTyped, List.mem_cons, Write.addTx.injEq, reduceCtorEq, List.not_mem_nil,
      or_false, false_or] at htx
    rcases htx with rfl | rfl <;> decide
  have hstakes : l.lockedStakes.map Output.key = [⟨⟨"y"⟩, 0⟩] :=
    (congrArg _ (List.mergeSort_of_pairwise (by decide +kernel))).trans (by decide +kernel)
  have hbonds : l.lockedBonds.map Output.key = [⟨⟨"y"⟩, 1⟩, ⟨⟨"z"⟩, 1⟩] :=
    (congrArg _ (List.mergeSort_of_pairwise (by decide +kernel))).trans (by decide +kernel)
  obtain ⟨-, -, -, hcandidates, hsame⟩ := lists_of_writes Sample.genesis sampleTyped hn
  obtain ⟨-, hreversed, -⟩ :=
    hsame l _ _ rfl rfl (List.reverse_perm _) (List.Perm.refl l.coins.types.toList)
  exact ⟨hn, hstakes, hbonds, hreversed ▸ hbonds, hcandidates⟩

end Ledger

end DaoLedger
