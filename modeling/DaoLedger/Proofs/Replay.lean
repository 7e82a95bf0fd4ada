import DaoLedger.Proofs.Applying
import DaoLedger.Proofs.Covering
/-!
Runs of applied and removed blocks. Main statement: the stored blocks, stripped of their
classification and applied to a new ledger, give the same ledger again. So nothing else that was
ever applied has left a trace.
-/
namespace DaoLedger

namespace Ledger
variable {l l' : Ledger} {tx : RawTx} {height : UInt32} {c : Classified} {raw : RawBlock}

/-! ### Nothing is stored before the genesis transaction -/

def Rooted (l : Ledger) : Prop :=
  ∀ tx, l.storedTxs.head? = some tx → tx.id = l.genesis.txId

theorem exists_unspent_of_hasBsqInput {inputs : List Input} (h : l.hasBsqInput inputs) :
    ∃ (key : OutputKey) (o : Output), l.coins.unspent[key]? = some o := by
  obtain ⟨input, -, hin⟩ := List.any_eq_true.1 h
  obtain ⟨o, ho⟩ := Option.isSome_iff_exists.1 hin
  exact ⟨input.source, o, (Option.filter_eq_some_iff.1 ho).1⟩

theorem storedTxs_ne_nil_of_hasBsqInput (hi : l.Indexed) {inputs : List Input}
    (h : l.hasBsqInput inputs) : l.storedTxs ≠ [] := by
  intro hnil
  obtain ⟨key, o, hu⟩ := exists_unspent_of_hasBsqInput h
  have hout := hi.reflects.outputIn?_of_unspent hu
  rw [hnil] at hout
  cases hout

/-- Without a BSQ input only the genesis transaction is adopted. -/
theorem genesis_of_classify (hc : l.classify tx height = .ok c) (hb : c.isBsq)
    (hin : ¬l.hasBsqInput tx.inputs) : l.genesis.names tx ∧ c.tx = tx.genesis := by
  rcases classify_eq_ok.1 hc with ⟨hg, -, rfl⟩ | ⟨-, hin', -⟩ | ⟨-, -, rfl⟩
  · exact ⟨hg, rfl⟩
  · exact absurd hin' hin
  · simp [Classified.isBsq, RawTx.undefined] at hb

theorem head_adopted {P : Tx → Prop} (ht : l.Takes c.tx)
    (hfirst : ∀ t, l.storedTxs.head? = some t → P t) (hempty : l.storedTxs = [] → P c.tx) {t : Tx}
    (hhead : (l.adopted c).storedTxs.head? = some t) : P t := by
  rw [storedTxs_adopted ht] at hhead
  cases hs : l.storedTxs with
  | nil =>
    rw [hs] at hhead
    cases hhead
    exact hempty hs
  | cons first rest =>
    rw [hs] at hhead
    exact hfirst t (by rw [hs]; exact hhead)

theorem Rooted.adopted (hr : l.Rooted) (hi : l.Indexed) (hc : l.classify tx height = .ok c)
    (hb : c.isBsq) (ht : l.Takes c.tx) : (l.adopted c).Rooted := by
  intro t
  refine head_adopted ht hr fun hs => ?_
  obtain ⟨hg, htx⟩ :=
    genesis_of_classify hc hb fun hin => storedTxs_ne_nil_of_hasBsqInput hi hin hs
  simp only [Genesis.names, Bool.and_eq_true, decide_eq_true_eq] at hg
  rw [htx]
  exact hg.1

theorem Rooted.opened (hr : l.Rooted) (raw : RawBlock) : (l.opened raw).Rooted := by
  intro t ht
  rw [storedTxs_opened] at ht
  exact hr t ht

theorem Rooted.parseTxs (hr : l.Rooted) (hi : l.Indexed) {txs : List RawTx}
    (hn : ∀ tx ∈ txs, tx.Named) : (l.parseTxs height txs).ledger.Rooted := by
  refine (parseTxs_induction (P := fun m => m.Indexed ∧ m.Rooted) ⟨hi, hr⟩ ?_).2
  rintro m tx c hm ⟨hi, hr⟩ hc hb ht
  exact ⟨hi.adopted (named_of_classify (hn tx hm) hc) ht, hr.adopted hi hc hb ht⟩

/-! ### Stripped transactions are classified as before -/

theorem placed_placed (tx : RawTx) (height : UInt32) :
    (tx.placed height).placed height = tx.placed height := by
  simp [RawTx.placed, Function.comp_def]

/-- The stripped transaction carries the height of its block, whichever height the raw one
claimed. That does not make it the genesis transaction, whose id is taken. -/
theorem classify_raw (hr : l.Rooted) (hi : l.Indexed) (hc : l.classify tx height = .ok c)
    (hb : c.isBsq) (ht : l.Takes c.tx) : l.classify c.tx.raw height = .ok c := by
  rcases classify_eq_ok.1 hc with ⟨hg, hsum, rfl⟩ | ⟨hg, hin, rfl⟩ | ⟨-, -, rfl⟩
  · have hraw : tx.genesis.raw = tx := by
      cases tx
      simp [Tx.raw, RawTx.genesis, RawOutput.genesis, RawTx.undefined, Function.comp_def]
    rw [hraw]
    exact hc
  · have hraw := (l.spends_classifySpending (tx.placed height)).raw
    have hid := id_of_classify hc
    rw [hraw]
    refine classify_eq_ok.2 (.inr (.inl ⟨fun hg => ?_, hin, ?_⟩))
    · obtain ⟨first, rest, hs⟩ :=
        List.exists_cons_of_ne_nil (storedTxs_ne_nil_of_hasBsqInput hi hin)
      have hfirst : first.id = l.genesis.txId := hr first (by rw [hs]; rfl)
      simp only [Genesis.names, Bool.and_eq_true, decide_eq_true_eq] at hg
      refine ht.2 (hi.mem_txs.2 ?_)
      have : tx.id = l.genesis.txId := hg.1
      rw [hs, hid, this, ← hfirst]
      exact List.mem_cons_self
    · rw [placed_placed]
  · simp [Classified.isBsq, RawTx.undefined] at hb

theorem tip_adopted {tip : Block} {older : List Block}
    (hc : l.chain = tip :: older) :
    (l.adopted c).chain =
      { tip with txs := tip.txs ++ [c.tx], events := tip.events ++ c.event.toList } :: older := by
  rw [adopted, hc]
  rfl

theorem parseTxs_raw {txs : List RawTx} (hi : l.Indexed) (hr : l.Rooted)
    (hn : ∀ tx ∈ txs, tx.Named) (ho : (l.parseTxs height txs).outcome = .ok ()) {tip : Block}
    {older : List Block} (hchain : l.chain = tip :: older) :
    ∃ entered tip', (l.parseTxs height txs).ledger.chain = tip' :: older ∧
      tip'.txs = tip.txs ++ entered ∧
      (l.parseTxs height (entered.map Tx.raw)).ledger = (l.parseTxs height txs).ledger ∧
      (l.parseTxs height (entered.map Tx.raw)).outcome = .ok () := by
  induction txs generalizing l tip with
  | nil => exact ⟨[], tip, hchain, by simp, rfl, rfl⟩
  | cons tx txs ih =>
    have hn' : ∀ tx ∈ txs, tx.Named := fun t ht => hn t (List.mem_cons_of_mem _ ht)
    cases hc : l.classify tx height with
    | error fault =>
      obtain ⟨-, e, he⟩ := parseTxs_fault hc
      rw [he] at ho
      cases ho
    | ok c =>
      by_cases hb : c.isBsq
      · by_cases ht : l.Takes c.tx
        · obtain ⟨hledger, houtcome⟩ := parseTxs_adopt hc hb ht
          have hi' := hi.adopted (named_of_classify (hn tx List.mem_cons_self) hc) ht
          obtain ⟨entered, tip', hchain', htxs, hledger', houtcome'⟩ :=
            ih hi' (hr.adopted hi hc hb ht) hn' (houtcome ▸ ho) (tip_adopted hchain)
          have hagain := @parseTxs_adopt l c.tx.raw height c (entered.map Tx.raw)
            (classify_raw hr hi hc hb ht) hb ht
          refine ⟨c.tx :: entered, tip', ?_, ?_, ?_, ?_⟩
          · rw [hledger, hchain']
          · rw [htxs, List.append_assoc]
            rfl
          · rw [List.map_cons, hagain.1, hledger', hledger]
          · rw [List.map_cons, hagain.2, houtcome']
        · obtain ⟨-, e, he⟩ := parseTxs_refuse hc hb ht
          rw [he] at ho
          cases ho
      · -- What is dropped leaves the ledger as it was, so nothing later can tell.
        obtain ⟨hledger, houtcome⟩ := parseTxs_skip hc hb
        rw [hledger]
        exact ih hi hr hn' (houtcome ▸ ho) hchain

/-! ### Ledgers built by blocks alone -/

/-- Ledgers that accepted blocks made from a new one. -/
inductive Built (g : Genesis) : Ledger → Prop
  | new : Built g (.new g)
  | apply {l : Ledger} {raw : RawBlock} (hl : Built g l) (hn : ∀ tx ∈ raw.txs, tx.Named)
      (hf : l.Opens raw) (ho : (l.attempted raw).outcome = .ok ()) :
      Built g (l.attempted raw).ledger

namespace Built
variable {g : Genesis}

structure Facts (g : Genesis) (l : Ledger) : Prop where
  indexed : l.Indexed
  rooted : l.Rooted
  covered : l.Covered
  genesis : l.genesis = g
  issuances : l.issuances = ∅
  paramChanges : l.paramChanges = []

theorem Facts.attempted (h : Facts g l) (hn : ∀ tx ∈ raw.txs, tx.Named) (hf : l.Opens raw) :
    Facts g (l.attempted raw).ledger := by
  have hx := extends_parseTxs l raw raw.txs
  have hopened := h.covered.opened h.paramChanges hf.1.2
  obtain ⟨txs, events, hc, -⟩ := hx.chain
  refine ⟨(h.indexed.opened raw).parseTxs hn, (h.rooted.opened raw).parseTxs (h.indexed.opened raw)
    hn, ⟨?_, ?_, ?_⟩, ?_, ?_, ?_⟩
  · rintro tip htip
    rw [Ledger.attempted, hc] at htip
    cases htip
    rw [Ledger.attempted, hx.cycles]
    exact hopened.started raw.opened rfl
  · rintro tip htip
    rw [Ledger.attempted, hc] at htip
    cases htip
    rw [Ledger.attempted, hx.cycles, hx.genesis]
    exact hopened.next raw.opened rfl
  · intro hnil
    rw [Ledger.attempted, hc] at hnil
    cases hnil
  · exact hx.genesis.trans h.genesis
  · exact hx.issuances.trans h.issuances
  · exact hx.paramChanges.trans h.paramChanges

theorem facts (h : Built g l) : Facts g l := by
  induction h with
  | new => exact ⟨.new g, by simp [Rooted, storedTxs, blocks, Ledger.new], .new g, rfl, rfl, rfl⟩
  | apply hl hn hf ho ih => exact ih.attempted hn hf

theorem Facts.issuedBelow (h : Facts g l) (height : UInt32) : l.IssuedBelow height := by
  intro id h' hs
  rw [h.issuances] at hs
  simp at hs

theorem Facts.reopened (h : Facts g l) (hf : l.Opens raw) : l.reopened raw = l := by
  rw [reopened_of_issuedBelow (h.issuedBelow raw.height), h.covered.cyclesBelow_opened hf.1.2]

/-- A block is accepted and makes a built ledger, or it leaves the ledger as it is. -/
theorem apply_cases (h : Built g l) (hn : ∀ tx ∈ raw.txs, tx.Named) :
    (l.Opens raw ∧ (l.attempted raw).outcome = .ok () ∧
        (l.apply raw).1 = (l.attempted raw).ledger) ∨
      (l.apply raw).1 = l ∧ (l.apply raw).2.toOption = none := by
  by_cases hf : l.Opens raw
  · cases ho : (l.attempted raw).outcome with
    | ok u =>
      obtain ⟨b, -, hb⟩ := apply_of_ok hf ho
      exact .inl ⟨hf, rfl, by rw [hb]⟩
    | error e =>
      have he := apply_of_error hf ho h.facts.indexed hn (h.facts.issuedBelow raw.height).stored
      rw [he]
      exact .inr ⟨h.facts.reopened hf, rfl⟩
  · obtain ⟨e, -, he⟩ | he := apply_of_not_opens hf
    · exact .inr ⟨by rw [he], by rw [he]; rfl⟩
    · exact .inr ⟨by rw [he], by rw [he]; rfl⟩

theorem apply_chain (h : Built g l) (hn : ∀ tx ∈ raw.txs, tx.Named) :
    (∃ b, (l.apply raw).2 = .ok b ∧ (l.apply raw).1.chain = b :: l.chain) ∨
      (l.apply raw).1 = l ∧ (l.apply raw).2.toOption = none := by
  rcases h.apply_cases hn with ⟨hf, ho, -⟩ | he
  · obtain ⟨b, hc, happly⟩ := apply_of_ok hf ho
    exact .inl ⟨b, by rw [happly], by rw [happly, hc]⟩
  · exact .inr he

theorem removeTip_attempted (h : Built g l) (hn : ∀ tx ∈ raw.txs, tx.Named) (hf : l.Opens raw) :
    ∃ b, (l.attempted raw).ledger.removeTip = some (b, l) := by
  have hx := extends_parseTxs l raw raw.txs
  obtain ⟨b, hb⟩ := hx.removeTip h.facts.indexed (h.facts.attempted hn hf).indexed
    (h.facts.issuedBelow raw.height).stored
  rw [h.facts.reopened hf] at hb
  exact ⟨b, hb⟩

theorem apply_raw (h : Built g l) (hn : ∀ tx ∈ raw.txs, tx.Named) (hf : l.Opens raw)
    (ho : (l.attempted raw).outcome = .ok ()) :
    ∃ b, (l.attempted raw).ledger.chain = b :: l.chain ∧
      l.apply b.raw = ((l.attempted raw).ledger, .ok b) := by
  obtain ⟨txs, events, hc, -⟩ := (extends_parseTxs l raw raw.txs).chain
  obtain ⟨entered, tip', hc', htxs, hledger, houtcome⟩ :=
    parseTxs_raw (h.facts.indexed.opened raw) (h.facts.rooted.opened raw) hn ho rfl
  refine ⟨_, hc, ?_⟩
  generalize hb : ({ raw.opened with txs, events } : Block) = b at hc
  have htip : tip' = b := by
    rw [hc] at hc'
    exact (List.cons.inj hc').1.symm
  have hentered : b.txs = entered := by rw [← htip, htxs]; rfl
  have hattempt : l.attempted b.raw = (l.opened raw).parseTxs raw.height (entered.map Tx.raw) := by
    rw [← hentered, ← hb]
    rfl
  have hf' : l.Opens b.raw := by
    rw [← hb]
    exact hf
  obtain ⟨b', hb', happly⟩ := apply_of_ok hf' (hattempt ▸ houtcome)
  rw [happly, hattempt, hledger]
  rw [hattempt, hledger, hc] at hb'
  rw [(List.cons.inj hb').1]
  rfl

end Built

/-! ### Replaying the stored blocks -/

/-- Applies blocks, each of which has to be accepted. -/
def replay? (l : Ledger) : List RawBlock → Option Ledger
  | [] => some l
  | raw :: raws =>
    match l.apply raw with
    | (l, .ok _) => l.replay? raws
    | (_, .error _) | (_, .never) => none

theorem replay?_append (l : Ledger) (raws more : List RawBlock) :
    l.replay? (raws ++ more) = (l.replay? raws).bind (·.replay? more) := by
  induction raws generalizing l with
  | nil => rfl
  | cons raw raws ih =>
    rw [List.cons_append, replay?, replay?]
    split
    · exact ih _
    · rfl
    · rfl

theorem Built.replay {g : Genesis} (h : Built g l) :
    (Ledger.new g).replay? (l.blocks.map Block.raw) = some l := by
  induction h with
  | new => rfl
  | @apply l raw hl hn hf ho ih =>
    obtain ⟨b, hc, happly⟩ := hl.apply_raw hn hf ho
    rw [blocks, hc, List.reverse_cons, List.map_append, replay?_append, ← blocks, ih,
      Option.bind_some, List.map_singleton]
    simp only [replay?, happly]

theorem Built.removeTip {g : Genesis} (h : Built g l) : Built g (l.change .removeTip) := by
  cases h with
  | new => exact .new
  | @apply l raw hl hn hf ho =>
    obtain ⟨b, hb⟩ := hl.removeTip_attempted hn hf
    rw [change, hb]
    exact hl

theorem Built.apply_fst {g : Genesis} (h : Built g l) (hn : ∀ tx ∈ raw.txs, tx.Named) :
    Built g (l.apply raw).1 := by
  rcases h.apply_cases hn with ⟨hf, ho, he⟩ | ⟨he, -⟩
  · rw [he]
    exact .apply h hn hf ho
  · rw [he]
    exact h

theorem Built.changeAll {g : Genesis} (h : Built g l) {cs : List Change}
    (hc : ∀ c ∈ cs, c.OfBlocks) : Built g (l.changeAll cs) := by
  induction cs generalizing l with
  | nil => exact h
  | cons c cs ih =>
    refine ih ?_ fun c hm => hc c (List.mem_cons_of_mem _ hm)
    have hfirst := hc c List.mem_cons_self
    cases c with
    | apply raw => exact h.apply_fst hfirst
    | removeTip => exact h.removeTip
    | paramChange change => cases hfirst
    | issue txId height => cases hfirst

theorem replay_changeAll (g : Genesis) (cs : List Change) (hc : ∀ c ∈ cs, c.OfBlocks) :
    (Ledger.new g).replay? (((Ledger.new g).changeAll cs).blocks.map Block.raw) =
      some ((Ledger.new g).changeAll cs) :=
  (Built.new.changeAll hc).replay

theorem replay_sample :
    let cs : List Change := [.apply Sample.first, .apply Sample.clash, .apply Sample.second,
      .removeTip, .apply Sample.second]
    let l := (Ledger.new Sample.genesis).changeAll cs
    (∀ c ∈ cs, c.OfBlocks) ∧ l.storedTxs.map Tx.id = [⟨"g"⟩, ⟨"r"⟩, ⟨"p"⟩] ∧
      (Ledger.new Sample.genesis).replay? (l.blocks.map Block.raw) = some l := by
  intro cs l
  have hc : ∀ c ∈ cs, c.OfBlocks := by decide
  exact ⟨hc, by decide +kernel, replay_changeAll Sample.genesis cs hc⟩

end Ledger

end DaoLedger
