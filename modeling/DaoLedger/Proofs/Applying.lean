import DaoLedger.Classify.Block
import DaoLedger.Proofs.Classification
import DaoLedger.Proofs.Indexed
/-!
Applying a block. Main statements: what an attempt writes, whether it succeeds or not, is removed
again with the tip except for the cycles that it opened, so a refused block changes nothing else.
-/
namespace DaoLedger

theorem RawTx.Named.placed {tx : RawTx} (hn : tx.Named) (height : UInt32) :
    (tx.placed height).Named := by
  intro i o ho
  simp only [RawTx.placed, List.getElem?_map] at ho
  obtain ⟨q, hq, rfl⟩ := Option.map_eq_some_iff.1 ho
  exact hn i q hq

namespace Ledger
variable {l l' : Ledger} {tx : RawTx} {height : UInt32} {c : Classified}

theorem raw_of_classify (h : l.classify tx height = .ok c) :
    c.tx.raw = tx ∨ c.tx.raw = tx.placed height := by
  rcases classify_eq_ok.1 h with ⟨-, -, rfl⟩ | ⟨-, -, rfl⟩ | ⟨-, -, rfl⟩
  · left
    cases tx
    simp [Tx.raw, RawTx.genesis, RawOutput.genesis, RawTx.undefined, Function.comp_def]
  · exact .inr (l.spends_classifySpending _).raw
  · exact .inr (RawTx.raw_undefined _)

theorem named_of_classify (hn : tx.Named) (h : l.classify tx height = .ok c) : c.tx.Named := by
  unfold Tx.Named
  rcases raw_of_classify h with hr | hr
  · exact hr ▸ hn
  · exact hr ▸ hn.placed height

theorem id_of_classify (h : l.classify tx height = .ok c) : c.tx.id = tx.id := by
  have hid : c.tx.id = c.tx.raw.id := rfl
  rcases raw_of_classify h with hr | hr
  · rw [hid, hr]
  · rw [hid, hr, RawTx.placed]

theorem event_of_classify (h : l.classify tx height = .ok c) {event : Event}
    (he : c.event = some event) : event.paramChange? = none := by
  rcases classify_eq_ok.1 h with ⟨-, -, rfl⟩ | ⟨-, -, rfl⟩ | ⟨-, -, rfl⟩
  · cases he
  · exact (l.spends_classifySpending _).event event he
  · cases he

/-! ### Entering a classified transaction -/

def adopted (l : Ledger) (c : Classified) : Ledger :=
  { l.entered c.tx c.tx.blockHeight with
    chain := l.chain.modifyHead fun tip =>
      { tip with txs := tip.txs ++ [c.tx], events := tip.events ++ c.event.toList } }

theorem Takes.tip {t : Tx} (h : l.Takes t) :
    ∃ tip older, l.chain = tip :: older ∧ t.blockHeight = tip.height := by
  obtain ⟨⟨tip, hh, ht⟩, -⟩ := h
  obtain ⟨older, hc⟩ := List.head?_eq_some_iff.1 hh
  exact ⟨tip, older, hc, ht⟩

theorem storedTxs_adopted (ht : l.Takes c.tx) :
    (l.adopted c).storedTxs = l.storedTxs ++ [c.tx] := by
  obtain ⟨tip, older, hc, -⟩ := ht.tip
  exact txsOf_modifyHead (by rw [hc]; rfl) rfl

theorem enter_of_not_isBsq (h : ¬c.isBsq) : l.enter c = (l, .ok ()) := if_neg h

theorem enter_of_not_takes (hb : c.isBsq) (ht : ¬l.Takes c.tx) :
    ∃ e, l.enter c = (l, .error e) := by
  unfold enter
  rw [if_pos hb]
  cases ha : l.addTx c.tx with
  | error e => exact ⟨_, rfl⟩
  | ok l' => exact absurd (addTx_eq_ok.1 ha).1 ht

theorem outOfRange?_eq_none {event : Event} (h : event.paramChange? = none) :
    outOfRange? event = none := by
  cases event with
  | paramChange change => cases h
  | proposal event => rfl
  | blindVote event => rfl

theorem enter_of_takes (hb : c.isBsq) (ht : l.Takes c.tx)
    (he : ∀ event, c.event = some event → event.paramChange? = none) :
    l.enter c = (l.adopted c, .ok ()) := by
  obtain ⟨tip, older, hc, -⟩ := ht.tip
  unfold enter
  rw [if_pos hb, addTx_eq_ok.2 ⟨ht, rfl⟩]
  cases hev : c.event with
  | none => simp [adopted, written, hev, hc]
  | some event =>
    have hp := he event hev
    have hne : (l.written c.tx).chain ≠ [] := by simp [written, hc]
    have ha := addEvent_eq_ok.2 ⟨outOfRange?_eq_none hp, hne, rfl⟩
    simp only [ha]
    simp [adopted, noted, written, hev, hc, hp]

theorem Indexed.adopted (h : l.Indexed) (hn : c.tx.Named) (ht : l.Takes c.tx) :
    (l.adopted c).Indexed := by
  have hw : (l.written c.tx).Indexed := h.addTx hn (addTx_eq_ok.2 ⟨ht, rfl⟩)
  obtain ⟨tip, older, hc, -⟩ := ht.tip
  refine hw.of_same ?_ rfl ?_
  · simp [Ledger.adopted, written, hc, txsOf_cons]
  · intro b hb t htx
    have hb' := hw.heights
    simp only [Ledger.adopted, written, hc, List.modifyHead_cons, List.mem_cons] at hb hb'
    rcases hb with rfl | hb
    · exact hb' _ (.inl rfl) t htx
    · exact hb' b (.inr hb) t htx

/-! ### Attempts -/

theorem parseTxs_skip {txs : List RawTx} (hc : l.classify tx height = .ok c) (hb : ¬c.isBsq) :
    (l.parseTxs height (tx :: txs)).ledger = (l.parseTxs height txs).ledger ∧
      (l.parseTxs height (tx :: txs)).outcome = (l.parseTxs height txs).outcome := by
  simp only [parseTxs, hc, enter_of_not_isBsq hb, and_self]

theorem parseTxs_adopt {txs : List RawTx} (hc : l.classify tx height = .ok c) (hb : c.isBsq)
    (ht : l.Takes c.tx) :
    (l.parseTxs height (tx :: txs)).ledger = ((l.adopted c).parseTxs height txs).ledger ∧
      (l.parseTxs height (tx :: txs)).outcome = ((l.adopted c).parseTxs height txs).outcome := by
  simp only [parseTxs, hc, enter_of_takes hb ht fun _ => event_of_classify hc, and_self]

theorem parseTxs_refuse {txs : List RawTx} (hc : l.classify tx height = .ok c) (hb : c.isBsq)
    (ht : ¬l.Takes c.tx) :
    (l.parseTxs height (tx :: txs)).ledger = l ∧
      ∃ e, (l.parseTxs height (tx :: txs)).outcome = .error e := by
  obtain ⟨e, he⟩ := enter_of_not_takes hb ht
  simp only [parseTxs, hc, he, true_and]
  exact ⟨e, rfl⟩

theorem parseTxs_fault {txs : List RawTx} {fault : GenesisFault}
    (hc : l.classify tx height = .error fault) :
    (l.parseTxs height (tx :: txs)).ledger = l ∧
      ∃ e, (l.parseTxs height (tx :: txs)).outcome = .error e := by
  simp only [parseTxs, hc, true_and]
  exact ⟨_, rfl⟩

/-- Whatever holds of the opened ledger, and still holds with each further transaction adopted,
holds of what the attempt leaves, where it fails too. -/
theorem parseTxs_induction {P : Ledger → Prop} {txs : List RawTx} (h : P l)
    (hstep : ∀ l tx c, tx ∈ txs → P l → l.classify tx height = .ok c → c.isBsq → l.Takes c.tx →
      P (l.adopted c)) :
    P (l.parseTxs height txs).ledger := by
  induction txs generalizing l with
  | nil => exact h
  | cons tx txs ih =>
    have htail {l : Ledger} (h : P l) : P (l.parseTxs height txs).ledger :=
      ih h fun l t c ht => hstep l t c (List.mem_cons_of_mem _ ht)
    cases hc : l.classify tx height with
    | error fault =>
      rw [(parseTxs_fault hc).1]
      exact h
    | ok c =>
      by_cases hb : c.isBsq
      · by_cases ht : l.Takes c.tx
        · rw [(parseTxs_adopt hc hb ht).1]
          exact htail (hstep l tx c List.mem_cons_self h hc hb ht)
        · rw [(parseTxs_refuse hc hb ht).1]
          exact h
      · rw [(parseTxs_skip hc hb).1]
        exact htail h

theorem Indexed.parseTxs (h : l.Indexed) {txs : List RawTx} (hn : ∀ tx ∈ txs, tx.Named) :
    (l.parseTxs height txs).ledger.Indexed :=
  parseTxs_induction h fun _ tx _ hm h hc _ ht => h.adopted (named_of_classify (hn tx hm) hc) ht

structure Extends (l : Ledger) (raw : RawBlock) (l' : Ledger) : Prop where
  genesis : l'.genesis = l.genesis
  issuances : l'.issuances = l.issuances
  cycles : l'.cycles = (l.opened raw).cycles
  paramChanges : l'.paramChanges = l.paramChanges
  chain : ∃ txs events, l'.chain =
      { raw.opened with txs, events } :: l.chain ∧ events.filterMap Event.paramChange? = []

theorem extends_parseTxs (l : Ledger) (raw : RawBlock) (txs : List RawTx) :
    l.Extends raw ((l.opened raw).parseTxs raw.height txs).ledger := by
  refine parseTxs_induction ⟨rfl, rfl, rfl, rfl, [], [], rfl, rfl⟩ ?_
  intro m tx c _ h hc _ _
  obtain ⟨txs, events, hchain, hevents⟩ := h.chain
  refine ⟨h.genesis, h.issuances, h.cycles, h.paramChanges, txs ++ [c.tx],
    events ++ c.event.toList, ?_, ?_⟩
  · rw [adopted, hchain]
    rfl
  · cases he : c.event with
    | none => simpa using hevents
    | some event => simpa [event_of_classify hc he] using hevents

/-! ### Taking an attempt back -/

theorem eq_of_indices (hi : l'.indices = l.indices) (hg : l'.genesis = l.genesis)
    (hc : l'.chain = l.chain) (hs : l'.issuances = l.issuances) (hy : l'.cycles = l.cycles)
    (hp : l'.paramChanges = l.paramChanges) : l' = l := by
  cases l
  cases l'
  simp only [indices, Indices.mk.injEq] at hi
  simp_all

def IssuedStored (l : Ledger) : Prop :=
  ∀ (id : TxId) h, l.issuances[id]? = some h → id ∈ l.txs

def IssuedBelow (l : Ledger) (height : UInt32) : Prop :=
  ∀ (id : TxId) h, l.issuances[id]? = some h → id ∈ l.txs ∧ h < height

/-- What is kept of a ledger when a block at `height` was opened on it and removed again. -/
def reopened (l : Ledger) (raw : RawBlock) : Ledger :=
  { l with
    cycles := cyclesBelow l.chain (l.opened raw).cycles
    issuances := l.issuances.filter fun _ h => h < raw.height }

theorem IssuedBelow.stored {height : UInt32} (h : l.IssuedBelow height) : l.IssuedStored :=
  fun id height hid => (h id height hid).1

theorem filter_issuances_eq_self {height : UInt32} :
    l.issuances.filter (fun _ h => h < height) = l.issuances ↔
      ∀ (id : TxId) h, l.issuances[id]? = some h → h < height := by
  constructor
  · intro he id h hid
    have hkept := congrArg (fun m => m[id]?) he
    simp only [Std.ExtTreeMap.getElem?_filter', hid] at hkept
    simpa using (Option.filter_eq_some_iff.1 hkept).2
  · intro hlt
    apply Std.ExtTreeMap.ext_getElem?
    intro id
    rw [Std.ExtTreeMap.getElem?_filter']
    cases hid : l.issuances[id]? with
    | none => rfl
    | some h => simp [hlt id h hid]

theorem reopened_of_issuedBelow {raw : RawBlock} (hs : l.IssuedBelow raw.height) :
    l.reopened raw = { l with cycles := cyclesBelow l.chain (l.opened raw).cycles } := by
  rw [reopened, filter_issuances_eq_self.2 fun id h hid => (hs id h hid).2]

/-- Removing the tip takes everything back that an attempt wrote. A removal forgets issuances from
the height of the tip on, and keeps the cycles that start up to the old tip. -/
theorem Extends.removeTip {raw : RawBlock} (he : l.Extends raw l') (hi : l.Indexed)
    (hi' : l'.Indexed) (hs : l.IssuedStored) : ∃ b, l'.removeTip = some (b, l.reopened raw) := by
  obtain ⟨txs, events, hc, hevents⟩ := he.chain
  obtain ⟨l₂, hr, hi₂, hc₂, hg₂, hy₂, hp₂, hs₂⟩ := removeTip_eq hi' hc
  refine ⟨_, hr.trans (congrArg (fun m => some (_, m)) (eq_of_indices ?_ ?_ hc₂ ?_ ?_ ?_))⟩
  · exact hi.indices_eq hi₂ hc₂
  · exact hg₂.trans he.genesis
  · rw [hs₂, reopened]
    congr 1
    apply Std.ExtTreeMap.ext_getElem?
    intro id
    rw [issuances_withdrawAll]
    simp only [he.issuances]
    split
    · next hid =>
      -- No transaction of the block has the id of one stored before it.
      refine (Std.ExtTreeMap.getElem?_eq_none fun hissued => ?_).symm
      obtain ⟨h, hh⟩ := Option.isSome_iff_exists.1 (Std.ExtTreeMap.isSome_getElem?_iff_mem.2 hissued)
      have hd := hi'.distinct.ids
      rw [storedTxs_eq, hc, txsOf_cons, List.map_append, List.nodup_append] at hd
      exact hd.2.2 id (hi.mem_txs.1 (hs id h hh)) id hid rfl
    · rfl
  · rw [hy₂, he.cycles]
    rfl
  · simp only [hp₂, hevents, he.paramChanges]
    exact List.filter_eq_self.2 (by simp)

/-! ### The block as a whole -/

theorem cutTo_length (l : Ledger) : l.cutTo l.chain.length = l := by
  rw [cutTo, Nat.sub_self, removeTips]

/-- Whether a block follows the tip. -/
def Fits (l : Ledger) (raw : RawBlock) : Prop :=
  l.containsBlock raw.height raw.hash = false ∧ l.misfit? raw = none

/-- Whether opening a block succeeds. -/
def Opens (l : Ledger) (raw : RawBlock) : Prop := l.Fits raw ∧ l.endless raw = false

def attempted (l : Ledger) (raw : RawBlock) : Parsing :=
  (l.opened raw).parseTxs raw.height raw.txs

variable {raw : RawBlock}

theorem parse_of_not_fits (h : ¬l.Fits raw) :
    ∃ e, l.parse raw = some ⟨l, [], .error e⟩ := by
  unfold parse
  by_cases hb : l.containsBlock raw.height raw.hash
  · exact ⟨_, if_pos hb⟩
  · rw [if_neg hb]
    cases hm : l.misfit? raw with
    | none => exact absurd ⟨by simpa using hb, hm⟩ h
    | some e => exact ⟨.ledger e, by simp only [start, hm]⟩

theorem apply_of_not_fits (h : ¬l.Fits raw) : ∃ e, l.apply raw = (l, .error e) := by
  obtain ⟨e, he⟩ := parse_of_not_fits h
  exact ⟨e, by simp only [Ledger.apply, he, settle, cutTo_length, Result.ofExcept]⟩

theorem apply_of_endless (h : l.Fits raw) (he : l.endless raw) : l.apply raw = (l, .never) := by
  unfold Ledger.apply parse
  rw [if_neg (by simp [h.1]), start_eq_never.2 ⟨h.2, he⟩]

theorem parse_of_opens (h : l.Opens raw) : l.parse raw = some (l.attempted raw) := by
  unfold parse attempted
  rw [if_neg (by simp [h.1.1]), start_eq_ok.2 ⟨h.1.2, h.2, rfl⟩]

theorem apply_of_not_opens (h : ¬l.Opens raw) :
    (∃ e, ¬l.Fits raw ∧ l.apply raw = (l, .error e)) ∨ l.apply raw = (l, .never) := by
  by_cases hf : l.Fits raw
  · exact .inr (apply_of_endless hf (by simpa [Opens, hf] using h))
  · obtain ⟨e, he⟩ := apply_of_not_fits hf
    exact .inl ⟨e, hf, he⟩

theorem apply_of_ok (h : l.Opens raw) (ho : (l.attempted raw).outcome = .ok ()) :
    ∃ b, (l.attempted raw).ledger.chain = b :: l.chain ∧
      l.apply raw = ((l.attempted raw).ledger, .ok b) := by
  obtain ⟨txs, events, hc, -⟩ := (extends_parseTxs l raw raw.txs).chain
  refine ⟨_, hc, ?_⟩
  unfold attempted at ho
  simp only [Ledger.apply, parse_of_opens h, attempted, ho, settle, hc, if_true, Result.ofExcept]

theorem apply_of_fail (h : l.Opens raw) {e : ParseError} (ho : (l.attempted raw).outcome = .error e) :
    l.apply raw = ((l.attempted raw).ledger.cutTo l.chain.length, .error e) := by
  simp only [Ledger.apply, parse_of_opens h, ho, settle, Result.ofExcept]

theorem apply_eq_never : (l.apply raw).2 = .never ↔ l.Fits raw ∧ l.endless raw := by
  constructor
  · intro hn
    by_cases hf : l.Fits raw
    · refine ⟨hf, by_contra fun he => ?_⟩
      cases ho : (l.attempted raw).outcome with
      | ok u =>
        obtain ⟨b, -, happly⟩ := apply_of_ok ⟨hf, by simpa using he⟩ ho
        simp [happly] at hn
      | error e => simp [apply_of_fail ⟨hf, by simpa using he⟩ ho] at hn
    · obtain ⟨e, he⟩ := apply_of_not_fits hf
      simp [he] at hn
  · exact fun ⟨hf, he⟩ => by rw [apply_of_endless hf he]

theorem Extends.cutTo_eq (he : l.Extends raw l') {b : Block} {before : Ledger}
    (hr : l'.removeTip = some (b, before)) : l'.cutTo l.chain.length = before := by
  obtain ⟨txs, events, hc, -⟩ := he.chain
  have hcount : l'.chain.length - l.chain.length = 1 := by
    rw [hc, List.length_cons, Nat.add_sub_cancel_left]
  simp only [cutTo, hcount, removeTips, hr]

theorem apply_of_error (h : l.Opens raw) {e : ParseError}
    (ho : (l.attempted raw).outcome = .error e) (hi : l.Indexed)
    (hn : ∀ tx ∈ raw.txs, tx.Named) (hs : l.IssuedStored) :
    l.apply raw = (l.reopened raw, .error e) := by
  have he := extends_parseTxs l raw raw.txs
  obtain ⟨b, hr⟩ := he.removeTip hi ((hi.opened raw).parseTxs hn) hs
  rw [apply_of_fail h ho, attempted, he.cutTo_eq hr]

end Ledger

/-! ### Runs -/

inductive Change where
  | apply (raw : RawBlock)
  | removeTip
  | paramChange (change : ParamChange)
  | issue (txId : TxId) (height : UInt32)
deriving DecidableEq

def Change.OfBlocks : Change → Prop
  | .apply raw => raw.Named
  | .removeTip => True
  | .paramChange _ | .issue .. => False

instance : DecidablePred Change.OfBlocks
  | .apply raw => inferInstanceAs (Decidable raw.Named)
  | .removeTip => .isTrue trivial
  | .paramChange _ | .issue .. => .isFalse id

namespace Ledger

def change (l : Ledger) : Change → Ledger
  | .apply raw => (l.apply raw).1
  | .removeTip => (l.removeTip.map (·.2)).getD l
  | .paramChange c => l.kept (l.addEvent (.paramChange c))
  | .issue txId height => l.kept (l.addIssuance txId height)

def changeAll (l : Ledger) (cs : List Change) : Ledger := cs.foldl change l

/-! ### What runs keep -/

theorem removeTips_induction {P : Ledger → Prop}
    (hremove : ∀ l b l', l.removeTip = some (b, l') → P l → P l') {l : Ledger} (h : P l) (n : Nat) :
    P (l.removeTips n) := by
  induction n generalizing l with
  | zero => exact h
  | succ n ih =>
    rw [removeTips]
    cases hr : l.removeTip with
    | none => exact h
    | some r => exact ih (hremove l r.1 r.2 hr h)

theorem settle_induction {ε : Type} {P : Ledger → Prop}
    (hremove : ∀ l b l', l.removeTip = some (b, l') → P l → P l') {after : Ledger} (h : P after)
    (noOpenBlock : ε) (count : Nat) (r : Except ε Unit) : P (settle noOpenBlock count after r).1 := by
  have hcut : P (after.cutTo count) := removeTips_induction hremove h _
  cases r with
  | error e => exact hcut
  | ok u =>
    cases hc : after.chain with
    | nil =>
      simp only [settle, hc]
      exact h
    | cons tip older =>
      simp only [settle, hc]
      split
      · exact h
      · exact hcut

/-- What is kept by each single thing that the changes of a run can do to the ledger. -/
structure Keeps (cs : List Change) (P : Ledger → Prop) : Prop where
  opened : ∀ l raw, .apply raw ∈ cs → l.misfit? raw = none → P l → P (l.opened raw)
  adopted : ∀ l raw tx c, .apply raw ∈ cs → tx ∈ raw.txs → l.classify tx raw.height = .ok c →
    c.isBsq → l.Takes c.tx → P l → P (l.adopted c)
  removed : ∀ l b l', l.removeTip = some (b, l') → P l → P l'
  noted : ∀ l change l', l.addEvent (.paramChange change) = .ok l' → P l → P l'
  issued : ∀ l id height l', l.addIssuance id height = .ok l' → P l → P l'

namespace Keeps
variable {cs : List Change} {P : Ledger → Prop} {l : Ledger}

/-- A refused block is opened, filled up to where it fails and removed again. -/
theorem apply (hk : Keeps cs P) {raw : RawBlock} (hm : .apply raw ∈ cs) (h : P l) :
    P (l.apply raw).1 := by
  by_cases hf : l.Opens raw
  · rw [Ledger.apply, parse_of_opens hf]
    refine settle_induction hk.removed ?_ _ _ _
    refine parseTxs_induction (hk.opened l raw hm hf.1.2 h) fun m tx c ht hp hc hb htakes => ?_
    exact hk.adopted m raw tx c hm ht hc hb htakes hp
  · obtain ⟨e, -, he⟩ | he := apply_of_not_opens hf
    · rw [he]
      exact h
    · rw [he]
      exact h

theorem change (hk : Keeps cs P) {c : Change} (hm : c ∈ cs) (h : P l) : P (l.change c) := by
  cases c with
  | apply raw => exact hk.apply hm h
  | removeTip =>
    rw [Ledger.change]
    cases hr : l.removeTip with
    | none => exact h
    | some r => exact hk.removed l r.1 r.2 hr h
  | paramChange change => exact kept_cases h fun l' ha => hk.noted l change l' ha h
  | issue id height => exact kept_cases h fun l' ha => hk.issued l id height l' ha h

theorem changeAll (hk : Keeps cs P) (h : P l) : P (l.changeAll cs) := by
  have hrun (seen : List Change) (hs : ∀ c ∈ seen, c ∈ cs) {m : Ledger} (h : P m) :
      P (m.changeAll seen) := by
    induction seen generalizing m with
    | nil => exact h
    | cons c seen ih =>
      have hfirst := hk.change (hs c List.mem_cons_self) h
      exact ih (fun c hc => hs c (List.mem_cons_of_mem _ hc)) hfirst
  exact hrun cs (fun _ hc => hc) h

end Keeps

theorem Indexed.keeps {cs : List Change} (hn : ∀ raw, .apply raw ∈ cs → raw.Named) :
    Keeps cs Indexed where
  opened _ raw _ _ h := h.opened raw
  adopted _ raw tx _ hm htx hc _ ht h := h.adopted (named_of_classify (hn raw hm tx htx) hc) ht
  removed _ _ _ hr h := h.removeTip hr
  noted _ _ _ ha h := h.addEvent ha
  issued _ _ _ _ ha h := h.addIssuance ha

end Ledger

end DaoLedger
