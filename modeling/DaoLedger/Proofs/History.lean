import DaoLedger.Node.Executor
import DaoLedger.Proofs.Replay
/-!
The states that a ledger went through. Main statements: each suffix of its chain is one of them,
and a ledger that is in one of them takes a stored block only if it is the next one.
-/
namespace DaoLedger

namespace Ledger.Built
variable {g : Genesis} {l m full : Ledger} {b : Block} {older : List Block}

/-- The chain determines the ledger. -/
theorem eq_of_chain (hl : Built g l) (hm : Built g m) (hc : l.chain = m.chain) : l = m := by
  have hr := hl.replay
  rw [blocks, hc, ← blocks, hm.replay] at hr
  exact (Option.some.inj hr).symm

theorem apply_next (h : Built g full) (hs : b :: older <:+ full.chain) (hl : Built g l)
    (hc : l.chain = older) :
    ∃ l', l.apply b.raw = (l', .ok b) ∧ Built g l' ∧ l'.chain = b :: older := by
  induction h with
  | new => cases List.suffix_nil.1 hs
  | @apply m raw hm hn hf ho ih =>
    obtain ⟨b', hc', happly⟩ := hm.apply_raw hn hf ho
    rw [hc'] at hs
    rcases List.suffix_cons_iff.1 hs with heq | hs
    · obtain ⟨rfl, rfl⟩ := List.cons.inj heq
      rw [hl.eq_of_chain hm hc]
      exact ⟨_, happly, .apply hm hn hf ho, hc'⟩
    · exact ih hs

/-! ### Heights and hashes -/

theorem attempted_header (raw : RawBlock) : ∃ b, (l.attempted raw).ledger.chain = b :: l.chain ∧
    b.height = raw.height ∧ b.previousHash = raw.previousHash := by
  obtain ⟨txs, events, hc, -⟩ := (extends_parseTxs l raw raw.txs).chain
  exact ⟨_, hc, rfl, rfl⟩

theorem heights (h : Built g full) :
    full.chain.Pairwise fun newer older => older.height < newer.height := by
  induction h with
  | new => exact .nil
  | @apply l raw hl hn hf ho ih =>
    obtain ⟨b, hc, hh, -⟩ := @attempted_header l raw
    rw [hc]
    refine List.pairwise_cons.2 ⟨fun b' hb' => ?_, ih⟩
    rw [hh]
    cases hchain : l.chain with
    | nil => rw [hchain] at hb'; cases hb'
    | cons tip older =>
      have hlt := height_of_misfit? hf.1.2 (by rw [hchain]; rfl)
      rw [hchain] at hb' ih
      rcases List.mem_cons.1 hb' with rfl | hb'
      · exact hlt
      · exact UInt32.lt_trans ((List.pairwise_cons.1 ih).1 b' hb') hlt

theorem genesis_le (h : Built g full) : ∀ b ∈ full.chain, g.blockHeight ≤ b.height := by
  induction h with
  | new => simp [Ledger.new]
  | @apply l raw hl hn hf ho ih =>
    obtain ⟨b, hc, hh, -⟩ := @attempted_header l raw
    rw [hc]
    intro b' hb'
    rcases List.mem_cons.1 hb' with rfl | hb'
    · rw [hh, ← hl.facts.genesis]
      exact (misfit?_eq_none.1 hf.1.2).1
    · exact ih b' hb'

theorem connected (h : Built g full) {b' : Block} (hs : b :: b' :: older <:+ full.chain) :
    b.previousHash = b'.hash := by
  induction h with
  | new => cases List.suffix_nil.1 hs
  | @apply l raw hl hn hf ho ih =>
    obtain ⟨b'', hc, -, hp⟩ := @attempted_header l raw
    rw [hc] at hs
    rcases List.suffix_cons_iff.1 hs with heq | hs
    · obtain ⟨rfl, hchain⟩ := List.cons.inj heq
      rw [hp]
      exact ((misfit?_eq_none.1 hf.1.2).2 b' (by rw [← hchain]; rfl)).2
    · exact ih hs

theorem blockAt?_eq (h : Built g l) (hb : b ∈ l.chain) : l.blockAt? b.height = some b :=
  (blockAt?_eq_some (List.pairwise_map.2 h.heights)).2 ⟨hb, rfl⟩

/-! ### Applying stored blocks again -/

theorem apply_known (h : Built g l) (hb : b ∈ l.chain) : ∃ e, l.apply b.raw = (l, .error e) := by
  refine apply_of_not_fits fun hf => ?_
  have hcontains : l.containsBlock b.raw.height b.raw.hash = true := by
    have hat : l.blockAt? b.raw.height = some b := h.blockAt?_eq hb
    rw [containsBlock, hat]
    exact decide_eq_true rfl
  have hfree := hf.1
  rw [hcontains] at hfree
  cases hfree

theorem first_of_height (h : Built g full) (hb : b ∈ full.chain)
    (hh : b.height = g.blockHeight) : [b] <:+ full.chain := by
  obtain ⟨newer, older, hc⟩ := List.append_of_mem hb
  cases older with
  | nil => exact ⟨newer, hc.symm⟩
  | cons b' older =>
    have hlt : b'.height < b.height := by
      have hp := h.heights
      rw [hc] at hp
      exact (List.pairwise_cons.1 (List.pairwise_append.1 hp).2.1).1 b' List.mem_cons_self
    have hle := h.genesis_le b' (by rw [hc]; simp)
    rw [← hh] at hle
    exact absurd hlt (UInt32.not_lt.2 hle)

/-- A stored block is either the next one or refused; an empty ledger has to be spared the blocks
after the first, since it would take any. -/
theorem apply_stored (hfull : Built g full) (hd : (full.chain.map (·.hash)).Nodup)
    (hl : Built g l) (hs : l.chain <:+ full.chain) (hb : b ∈ full.chain)
    (hfirst : l.chain = [] → [b] <:+ full.chain) :
    (∃ l', l.apply b.raw = (l', .ok b) ∧ Built g l' ∧ l'.chain = b :: l.chain ∧
        l'.chain <:+ full.chain) ∨
      ∃ e, l.apply b.raw = (l, .error e) := by
  have hnext (hs : b :: l.chain <:+ full.chain) : ∃ l', l.apply b.raw = (l', .ok b) ∧
      Built g l' ∧ l'.chain = b :: l.chain ∧ l'.chain <:+ full.chain := by
    obtain ⟨l', happly, hl', hc'⟩ := hfull.apply_next hs hl rfl
    exact ⟨l', happly, hl', hc', hc' ▸ hs⟩
  by_cases hknown : b ∈ l.chain
  · exact .inr (hl.apply_known hknown)
  · cases hchain : l.chain with
    | nil =>
      rw [hchain] at hnext
      exact .inl (hnext (hfirst hchain))
    | cons tip older =>
      obtain ⟨newer, hc⟩ := hs
      rw [← hc] at hb
      obtain ⟨newest, between, rfl⟩ :=
        List.append_of_mem ((List.mem_append.1 hb).resolve_right hknown)
      cases between with
      | nil =>
        rw [← hchain]
        exact .inl (hnext ⟨newest, by rw [← hc, List.append_assoc]; rfl⟩)
      | cons b' between =>
        -- The block follows one above the tip, whose hash is not that of the tip.
        have hp : b.previousHash = b'.hash :=
          hfull.connected ⟨newest, by rw [← hc, List.append_assoc]; rfl⟩
        have hne : b'.hash ≠ tip.hash := by
          rw [← hc, hchain] at hd
          simp only [List.map_append, List.map_cons, List.append_assoc, List.cons_append] at hd
          have hd' := (List.nodup_cons.1 (List.nodup_append.1 hd).2.1).2
          intro heq
          exact (List.nodup_cons.1 hd').1 (by simp [heq])
        refine .inr (apply_of_not_fits fun hf => hne ?_)
        have hprev := ((misfit?_eq_none.1 hf.2).2 tip (by rw [hchain]; rfl)).2
        exact hp.symm.trans hprev

end Ledger.Built

/-! ### Batches -/

namespace Executor
variable {g : Genesis} {full m : Ledger} {x : Executor}

def Unbroken (x : Executor) : Prop := ∀ l raw, x.broken? l raw = none

structure Runs (x : Executor) : Prop where
  running : x.running
  unbroken : x.Unbroken

/-- Jobs are taken on and worked off. -/
structure Works (x : Executor) : Prop extends Runs x where
  free : x.stuck = false

theorem Works.new (g : Genesis) : (Executor.new g).Works := ⟨⟨rfl, fun _ _ => rfl⟩, rfl⟩

theorem Runs.withMetrics (h : x.Runs) (metrics : Metrics) : Runs { x with metrics } :=
  ⟨h.running, h.unbroken⟩

theorem Works.withMetrics (h : x.Works) (metrics : Metrics) : Works { x with metrics } :=
  ⟨h.toRuns.withMetrics metrics, h.free⟩

theorem parseOne_eq (h : x.Unbroken) (raw : RawBlock) :
    x.parseOne raw = ({ x with
      ledger := (x.ledger.apply raw).1
      metrics := counted x.metrics (x.parseTime raw) (x.ledger.apply raw).2
      stuck := x.stuck || (x.ledger.apply raw).2.isNever },
      (x.ledger.apply raw).2.mapError .parse) := by
  simp only [parseOne, h x.ledger raw]

theorem ledger_parseOne (h : x.Unbroken) (raw : RawBlock) :
    (x.parseOne raw).1.ledger = (x.ledger.apply raw).1 := by
  rw [parseOne_eq h]

theorem result_parseOne (h : x.Unbroken) (raw : RawBlock) :
    (x.parseOne raw).2 = (x.ledger.apply raw).2.mapError .parse := by
  rw [parseOne_eq h]

theorem Runs.parseOne (h : x.Runs) (raw : RawBlock) : (x.parseOne raw).1.Runs := by
  rw [parseOne_eq h.unbroken]
  exact ⟨h.running, h.unbroken⟩

theorem Works.parseOne (h : x.Works) {raw : RawBlock}
    (hn : (x.ledger.apply raw).2.isNever = false) : (x.parseOne raw).1.Works := by
  refine ⟨h.toRuns.parseOne raw, ?_⟩
  rw [parseOne_eq h.unbroken, h.free, hn]
  rfl

theorem parseBatch_eq (x : Executor) (raw : RawBlock) (raws : List RawBlock) :
    x.parseBatch (raw :: raws) =
      let (rest, bs, outcome) := (x.parseOne raw).1.parseBatch raws
      match (x.parseOne raw).2 with
      | .ok b => (rest, b :: bs, outcome)
      | .error e => ((x.parseOne raw).1, [], .error e)
      | .never => ((x.parseOne raw).1, [], .never) := by
  rw [parseBatch]
  rcases x.parseOne raw with ⟨y, b | e | -⟩ <;> rfl

theorem parseBatch_cons (h : x.Unbroken) (raw : RawBlock) (raws : List RawBlock) :
    (x.parseBatch (raw :: raws)).1 =
      match (x.ledger.apply raw).2 with
      | .ok _ => ((x.parseOne raw).1.parseBatch raws).1
      | .error _ | .never => (x.parseOne raw).1 := by
  rw [parseBatch_eq, result_parseOne h]
  cases (x.ledger.apply raw).2 <;> rfl

/-- The executor goes on working, and its ledger goes on along the history of another. -/
structure Advances (g : Genesis) (full : Ledger) (x x' : Executor) : Prop where
  built : Ledger.Built g x'.ledger
  grown : x.ledger.chain <:+ x'.ledger.chain
  behind : x'.ledger.chain <:+ full.chain
  works : x'.Works

theorem Advances.trans {x' x'' : Executor} (h : Advances g full x x')
    (h' : Advances g full x' x'') : Advances g full x x'' :=
  ⟨h'.built, h.grown.trans h'.grown, h'.behind, h'.works⟩

theorem parseOne_stored (hfull : Ledger.Built g full) (hd : (full.chain.map (·.hash)).Nodup)
    (hw : x.Works) (hx : Ledger.Built g x.ledger) (hs : x.ledger.chain <:+ full.chain)
    {b : Block} (hb : b ∈ full.chain) (hfirst : x.ledger.chain = [] → [b] <:+ full.chain) :
    Advances g full x (x.parseOne b.raw).1 ∧
      (((x.ledger.apply b.raw).2 = .ok b ∧ (x.parseOne b.raw).1.ledger.chain ≠ []) ∨
        ∃ e, (x.ledger.apply b.raw).2 = .error e) := by
  have hledger := ledger_parseOne hw.unbroken b.raw
  rcases hfull.apply_stored hd hx hs hb hfirst with ⟨l', happly, hl', hc', hs'⟩ | ⟨e, happly⟩
  · have hworks : (x.parseOne b.raw).1.Works := hw.parseOne (by rw [happly]; rfl)
    rw [happly] at hledger
    refine ⟨⟨hledger ▸ hl', ?_, hledger ▸ hs', hworks⟩, .inl ⟨by rw [happly], ?_⟩⟩
    · rw [hledger, hc']
      exact List.suffix_cons ..
    · rw [hledger, hc']
      exact List.cons_ne_nil _ _
  · have hworks : (x.parseOne b.raw).1.Works := hw.parseOne (by rw [happly]; rfl)
    rw [happly] at hledger
    refine ⟨⟨hledger ▸ hx, ?_, hledger ▸ hs, hworks⟩, .inr ⟨e, by rw [happly]⟩⟩
    exact hledger ▸ List.suffix_refl _

/-- Stored blocks, in whatever order, leave a state of the history. -/
theorem parseBatch_stored (hfull : Ledger.Built g full)
    (hd : (full.chain.map (·.hash)).Nodup) {bs : List Block} (hw : x.Works)
    (hx : Ledger.Built g x.ledger) (hs : x.ledger.chain <:+ full.chain)
    (hb : ∀ b ∈ bs, b ∈ full.chain)
    (hfirst : x.ledger.chain = [] → ∀ b, bs.head? = some b → [b] <:+ full.chain) :
    Advances g full x (x.parseBatch (bs.map Block.raw)).1 := by
  induction bs generalizing x with
  | nil => exact ⟨hx, List.suffix_refl _, hs, hw⟩
  | cons b bs ih =>
    rw [List.map_cons, parseBatch_cons hw.unbroken]
    obtain ⟨hadvances, ⟨hok, hne⟩ | ⟨e, he⟩⟩ := parseOne_stored hfull hd hw hx hs
      (hb b List.mem_cons_self) fun h => hfirst h b rfl
    · simp only [hok]
      exact hadvances.trans (ih hadvances.works hadvances.built hadvances.behind
        (fun b' hm => hb b' (List.mem_cons_of_mem _ hm)) fun h => absurd h hne)
    · simp only [he]
      exact hadvances

theorem parseBatch_missing (hm : Ledger.Built g m) {bs : List Block} (hu : x.Unbroken)
    (hx : Ledger.Built g x.ledger) (hc : m.chain = bs.reverse ++ x.ledger.chain) :
    (x.parseBatch (bs.map Block.raw)).1.ledger = m := by
  induction bs generalizing x with
  | nil => exact hx.eq_of_chain hm hc.symm
  | cons b bs ih =>
    rw [List.reverse_cons, List.append_assoc] at hc
    obtain ⟨l', happly, hl', hc'⟩ := hm.apply_next ⟨bs.reverse, hc.symm⟩ hx rfl
    have hledger : (x.parseOne b.raw).1.ledger = l' := by rw [ledger_parseOne hu, happly]
    have hu' : (x.parseOne b.raw).1.Unbroken := by
      rw [parseOne_eq hu]
      exact hu
    rw [List.map_cons, parseBatch_cons hu, happly]
    refine @ih (x.parseOne b.raw).1 hu' (hledger ▸ hl') ?_
    rw [hledger, hc', hc]
    rfl

theorem parseBatch_known {bs : List Block} (hu : x.Unbroken) (hx : Ledger.Built g x.ledger)
    (hb : ∀ b ∈ bs, b ∈ x.ledger.chain) :
    (x.parseBatch (bs.map Block.raw)).1.ledger = x.ledger := by
  cases bs with
  | nil => rfl
  | cons b bs =>
    obtain ⟨e, happly⟩ := hx.apply_known (hb b List.mem_cons_self)
    rw [List.map_cons, parseBatch_cons hu]
    simp only [happly, ledger_parseOne hu]

end Executor

end DaoLedger
