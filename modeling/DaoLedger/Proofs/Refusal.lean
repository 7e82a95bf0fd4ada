import DaoLedger.Proofs.Applying
import DaoLedger.Proofs.Covering
/-!
Refused blocks. Main statement: a block that is refused after it was opened leaves everything as it
was but for issuances recorded at its height or above, which are lost, and cycles that the old tip
called for, which are opened late. So it leaves no trace just where there are none of these.
-/
namespace DaoLedger

namespace Ledger
variable {l l' : Ledger} {raw : RawBlock}

/-- What every run keeps: the indices are those of the stored blocks, only stored requests are
issued, and no cycle starts above the tip. -/
structure Orderly (l : Ledger) : Prop where
  indexed : l.Indexed
  issued : l.IssuedStored
  begun : l.Begun

theorem IssuedStored.of_le (h : l.IssuedStored)
    (hissued : ∀ (id : TxId) h, l'.issuances[id]? = some h → l.issuances[id]? = some h)
    (htxs : ∀ id, id ∈ l.txs → id ∈ l'.txs) : l'.IssuedStored :=
  fun id height hid => htxs id (h id height (hissued id height hid))

namespace Orderly

theorem new (g : Genesis) : (Ledger.new g).Orderly :=
  ⟨.new g, by simp [IssuedStored, Ledger.new], .new g⟩

theorem attempted (h : l.Orderly) (hn : raw.Named) (hm : l.misfit? raw = none) :
    (l.attempted raw).ledger.Orderly := by
  have he : l.Extends raw (l.attempted raw).ledger := extends_parseTxs l raw raw.txs
  have hi : (l.attempted raw).ledger.Indexed := (h.indexed.opened raw).parseTxs hn
  obtain ⟨txs, events, hc, -⟩ := he.chain
  refine ⟨hi, h.issued.of_le (fun id height hid => he.issuances ▸ hid) fun id hid => ?_, ?_, ?_⟩
  · rw [hi.mem_txs, storedTxs_eq, hc, txsOf_cons, List.map_append]
    exact List.mem_append_left _ (h.indexed.mem_txs.1 hid)
  · rintro tip htip
    rw [hc] at htip
    cases htip
    rw [he.cycles]
    exact (h.begun.opened hm).started raw.opened rfl
  · intro hnil
    rw [hc] at hnil
    cases hnil

theorem reopened (h : l.Orderly) (raw : RawBlock) : (l.reopened raw).Orderly := by
  refine ⟨h.indexed.of_same rfl rfl h.indexed.heights, ?_, begun_of_cyclesBelow rfl⟩
  refine h.issued.of_le (fun id height hid => ?_) fun _ => id
  rw [Ledger.reopened, Std.ExtTreeMap.getElem?_filter'] at hid
  exact (Option.filter_eq_some_iff.1 hid).1

/-- The ends of an attempt: the block is kept, opened and removed again, or not opened, and opening
it may have no end. -/
theorem apply_cases (h : l.Orderly) (hn : raw.Named) :
    (∃ b, l.Fits raw ∧ l.apply raw = ((l.attempted raw).ledger, .ok b)) ∨
      (∃ e, l.Fits raw ∧ l.apply raw = (l.reopened raw, .error e)) ∨
        (∃ e, ¬l.Fits raw ∧ l.apply raw = (l, .error e)) ∨ l.apply raw = (l, .never) := by
  by_cases hf : l.Opens raw
  · cases ho : (l.attempted raw).outcome with
    | ok u =>
      obtain ⟨b, -, hb⟩ := apply_of_ok hf ho
      exact .inl ⟨b, hf.1, hb⟩
    | error e => exact .inr (.inl ⟨e, hf.1, apply_of_error hf ho h.indexed hn h.issued⟩)
  · exact .inr (.inr (apply_of_not_opens hf))

theorem apply (h : l.Orderly) (hn : raw.Named) : (l.apply raw).1.Orderly := by
  rcases h.apply_cases hn with ⟨b, hf, he⟩ | ⟨e, -, he⟩ | ⟨e, -, he⟩ | he
  · rw [he]
    exact h.attempted hn hf.2
  · rw [he]
    exact h.reopened raw
  · rw [he]
    exact h
  · rw [he]
    exact h

theorem removeTip (h : l.Orderly) : (l.change .removeTip).Orderly := by
  cases hc : l.chain with
  | nil =>
    simp only [change, Ledger.removeTip, hc]
    exact h
  | cons block older =>
    obtain ⟨l₂, hr, hi, hchain, -, hcycles, -, hissued⟩ := removeTip_eq h.indexed hc
    rw [change, hr]
    refine ⟨hi, fun id height hid => ?_, begun_of_cyclesBelow (hchain ▸ hcycles)⟩
    -- The requests of the removed block are not issued any more, so the others are stored below.
    rw [Option.map_some, Option.getD_some, hissued, Std.ExtTreeMap.getElem?_filter',
      issuances_withdrawAll] at hid
    obtain ⟨hid, -⟩ := Option.filter_eq_some_iff.1 hid
    split at hid
    · cases hid
    · next hfresh =>
      have hmem := h.indexed.mem_txs.1 (h.issued id height hid)
      rw [storedTxs_eq, hc, txsOf_cons, List.map_append, List.mem_append] at hmem
      rw [Option.map_some, Option.getD_some, hi.mem_txs, storedTxs_eq, hchain]
      exact hmem.resolve_right hfresh

theorem addEvent (h : l.Orderly) {event : Event} (ha : l.addEvent event = .ok l') :
    l'.Orderly := by
  have hi := h.indexed.addEvent ha
  obtain ⟨-, hne, rfl⟩ := addEvent_eq_ok.1 ha
  obtain ⟨tip, older, hc⟩ := List.exists_cons_of_ne_nil hne
  have hstarted := h.begun.started tip (by rw [hc]; rfl)
  refine ⟨hi, h.issued, fun tip' htip' => ?_, fun hnil => by simp [noted, hc] at hnil⟩
  simp only [noted, hc, List.modifyHead_cons, List.head?_cons, Option.some.injEq] at htip'
  rw [← htip']
  exact hstarted

theorem addIssuance (h : l.Orderly) {id : TxId} {height : UInt32}
    (ha : l.addIssuance id height = .ok l') : l'.Orderly := by
  have hi := h.indexed.addIssuance ha
  obtain ⟨htype, rfl⟩ := addIssuance_eq_ok.1 ha
  refine ⟨hi, fun id' height' hid => ?_, h.begun.started, h.begun.empty⟩
  rw [Std.ExtTreeMap.getElem?_insert] at hid
  split at hid
  · next he => exact Std.LawfulEqOrd.eq_of_compare he ▸ h.indexed.mem_of_txType htype
  · exact h.issued id' height' hid

theorem change (h : l.Orderly) {c : Change} (hc : ∀ raw, c = .apply raw → raw.Named) :
    (l.change c).Orderly := by
  cases c with
  | apply raw => exact h.apply (hc raw rfl)
  | removeTip => exact h.removeTip
  | paramChange change => exact kept_cases h fun _ => h.addEvent
  | issue txId height => exact kept_cases h fun _ => h.addIssuance

theorem changeAll (h : l.Orderly) {cs : List Change}
    (hc : ∀ raw, .apply raw ∈ cs → raw.Named) : (l.changeAll cs).Orderly := by
  induction cs generalizing l with
  | nil => exact h
  | cons c cs ih =>
    refine ih (h.change fun raw he => hc raw ?_) fun raw hm => hc raw (List.mem_cons_of_mem _ hm)
    exact he ▸ List.mem_cons_self

theorem reopened_eq_self (h : l.Orderly) (hm : l.misfit? raw = none) :
    l.reopened raw = l ↔
      (∀ (id : TxId) h, l.issuances[id]? = some h → h < raw.height) ∧ l.UpToDate := by
  rw [← filter_issuances_eq_self, ← h.begun.cyclesBelow_opened hm]
  constructor
  · intro he
    exact ⟨congrArg Ledger.issuances he, congrArg Ledger.cycles he⟩
  · rintro ⟨hissued, hcycles⟩
    rw [Ledger.reopened, hissued, hcycles]

end Orderly

end Ledger

theorem Store.apply_eq {α : Type} (s : Store α) (raw : RawBlock) :
    s.apply raw = (⟨(s.ledger.apply raw).1, s.listeners⟩,
      (s.ledger.apply raw).2.map fun block => ⟨block, s.listeners.entries.map (·.2)⟩) := by
  simp only [Store.apply, Store.commit, Ledger.apply]
  cases s.ledger.parse raw <;> rfl

theorem Store.refused_leaves_no_trace_iff {α : Type} (g : Genesis) (cs : List Change)
    (listeners : Listeners α) (raw : RawBlock) (hc : ∀ raw, .apply raw ∈ cs → raw.Named)
    (hn : raw.Named) :
    let l := (Ledger.new g).changeAll cs
    let s : Store α := ⟨l, listeners⟩
    ∀ e, (s.apply raw).2 = .error e →
      ∃ after, s.apply raw = (⟨after, listeners⟩, .error e) ∧
        after.chain = l.chain ∧ after.indices = l.indices ∧ after.genesis = l.genesis ∧
        after.paramChanges = l.paramChanges ∧
        (after = l ↔ (l.Fits raw →
          (∀ (id : TxId) h, l.issuances[id]? = some h → h < raw.height) ∧ l.UpToDate)) := by
  intro l s e he
  have hl : l.Orderly := (Ledger.Orderly.new g).changeAll hc
  rw [Store.apply_eq] at he
  rcases hl.apply_cases hn with ⟨b, -, happly⟩ | ⟨e', hf, happly⟩ | ⟨e', hf, happly⟩ | happly
  · simp [s, happly] at he
  · have he' : e' = e := by simpa [s, happly] using he
    refine ⟨l.reopened raw, ?_, rfl, rfl, rfl, rfl, ?_⟩
    · rw [Store.apply_eq, happly, he']
      rfl
    · rw [hl.reopened_eq_self hf.2]
      exact ⟨fun h _ => h, fun h => h hf⟩
  · have he' : e' = e := by simpa [s, happly] using he
    refine ⟨l, ?_, rfl, rfl, rfl, rfl, ?_⟩
    · rw [Store.apply_eq, happly, he']
      rfl
    · exact ⟨fun _ h => absurd h hf, fun _ => rfl⟩
  · simp [s, happly] at he

theorem Store.refused_clash :
    let cs : List Change := [.apply Sample.first, .issue ⟨"r"⟩ 10]
    let l := (Ledger.new Sample.genesis).changeAll cs
    let s : Store String := ⟨l, (Listeners.empty.subscribe "a").1⟩
    (∀ raw, .apply raw ∈ cs → raw.Named) ∧ Sample.clash.Named ∧ l.isIssued ⟨"r"⟩ ∧
      s.apply Sample.clash = (s, .error (.ledger (.duplicateTx ⟨"p"⟩))) := by
  intro cs l s
  have hc : ∀ raw, .apply raw ∈ cs → raw.Named := by
    intro raw hm
    simp only [cs, List.mem_cons, Change.apply.injEq, reduceCtorEq, List.not_mem_nil, or_false]
      at hm
    subst hm
    decide
  have hn : Sample.clash.Named := by decide
  have herr : (l.apply Sample.clash).2 = .error (.ledger (.duplicateTx ⟨"p"⟩)) := by
    decide +kernel
  have he : (s.apply Sample.clash).2 = .error (.ledger (.duplicateTx ⟨"p"⟩)) := by
    rw [Store.apply_eq, herr]
    rfl
  have hissued : l.issuances.toList = [(⟨"r"⟩, 10)] := by decide +kernel
  have hreaches : ∀ tip ∈ l.chain.head?, tip.height.toNat <
      Cycle.nextStart l.genesis.blockHeight.toNat l.cycles := by decide +kernel
  obtain ⟨after, happly, -, -, -, -, hiff⟩ := Store.refused_leaves_no_trace_iff Sample.genesis cs
    s.listeners Sample.clash hc hn _ he
  have hsame : after = l := by
    refine hiff.2 fun _ => ⟨fun id h hid => ?_, fun tip htip => .inl (hreaches tip htip)⟩
    have hmem := Std.ExtTreeMap.mem_toList_iff_getElem?_eq_some.2 hid
    rw [hissued, List.mem_singleton] at hmem
    cases hmem
    decide
  exact ⟨hc, hn, by decide +kernel, by rw [happly, hsame]⟩

/-- A request issued for a height that the chain has not reached is not issued any more after a
block up to that height was refused. -/
theorem Ledger.refused_block_drops_issuance :
    ¬∀ (g : Genesis) (cs : List Change) (raw : RawBlock),
      (∀ raw, .apply raw ∈ cs → raw.Named) → raw.Named →
        let l := (Ledger.new g).changeAll cs
        ∀ e, (l.apply raw).2 = .error e → (l.apply raw).1 = l := by
  intro h
  have hc : ∀ raw, .apply raw ∈ [Change.apply Sample.first, .issue ⟨"r"⟩ 20] → raw.Named := by
    intro raw hm
    simp only [List.mem_cons, Change.apply.injEq, reduceCtorEq, List.not_mem_nil, or_false] at hm
    subst hm
    decide
  have hsame := h Sample.genesis _ Sample.clash hc (by decide)
    (.ledger (.duplicateTx ⟨"p"⟩)) (by decide +kernel)
  have hissued := congrArg (fun l => l.issuanceHeight? ⟨"r"⟩) hsame
  revert hissued
  decide +kernel

example :
    let cs : List Change := .apply Sample.first ::
      (Phase.all.map fun phase => .paramChange ⟨phase.durationParam, 0, 4682⟩) ++
        [.apply ⟨5000, 0, ⟨"b"⟩, ⟨"a"⟩, []⟩, .paramChange ⟨.phaseProposal, 100, 4682⟩]
    let l := (Ledger.new Sample.genesis).changeAll cs
    let raw := { Sample.clash with height := 5001, hash := ⟨"c"⟩, previousHash := ⟨"b"⟩ }
    (l.apply raw).2 = .error (.ledger (.duplicateTx ⟨"p"⟩)) ∧
      l.cycles.map Cycle.firstBlock = [10] ∧
      (l.apply raw).1.cycles.map Cycle.firstBlock = [4982, 4882, 4782, 4682, 10] := by
  decide +kernel

end DaoLedger
