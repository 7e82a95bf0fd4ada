import DaoLedger.Proofs.Agreement
import DaoLedger.Proofs.Covering
/-!
How the cycles lie on the chain. Main statement: after any run of writes the cycles follow one
another without gaps from the genesis height up to the tip, as long as no cycle would be empty; and
only removing the tip changes the cycle of a height that has one.
-/
namespace DaoLedger

namespace Cycle
variable {changes : List ParamChange} {genesisHeight height start : Nat} {cycles older : List Cycle}
  {c : Cycle}

/-- Each cycle starts just above the one before it, the oldest at the genesis height. -/
def Tiles (genesisHeight : Nat) : List Cycle → Prop
  | [] => True
  | c :: older =>
    c.firstBlock = nextStart genesisHeight older ∧ c.firstBlock ≤ c.lastBlock ∧
      Tiles genesisHeight older

theorem contains_iff : c.contains height ↔ c.firstBlock ≤ height ∧ height ≤ c.lastBlock := by
  simp [contains]

namespace Tiles

theorem lt_nextStart (h : Tiles genesisHeight cycles) (hc : c ∈ cycles) :
    c.lastBlock < nextStart genesisHeight cycles := by
  induction cycles with
  | nil => cases hc
  | cons d older ih =>
    obtain ⟨hfirst, hle, holder⟩ := h
    cases hc with
    | head => exact Nat.lt_succ_self _
    | tail _ hc =>
      have hlt := ih holder hc
      rw [nextStart]
      omega

theorem lt_firstBlock (h : Tiles genesisHeight (c :: older)) {d : Cycle} (hd : d ∈ older) :
    d.lastBlock < c.firstBlock := by
  rw [h.1]
  exact h.2.2.lt_nextStart hd

theorem le_lastBlock (h : Tiles genesisHeight cycles) (hc : c ∈ cycles) :
    c.firstBlock ≤ c.lastBlock := by
  induction cycles with
  | nil => cases hc
  | cons d older ih =>
    cases hc with
    | head => exact h.2.1
    | tail _ hc => exact ih h.2.2 hc

theorem cover (h : Tiles genesisHeight cycles) (hs : start = nextStart genesisHeight cycles)
    (hh : height < heightLimit) : Tiles genesisHeight (cover changes height start cycles) := by
  fun_induction Cycle.cover changes height start cycles with
  | case1 start cycles hle c hzero => exact h
  | case2 start cycles hle c hne hlast =>
    exact absurd hlast (Nat.not_lt.2 (le_lastBlock_startingAt (Nat.lt_of_le_of_lt hle hh) hne))
  | case3 start cycles hle c hne hlast ih => exact ih ⟨hs, Nat.le_of_not_lt hlast, h⟩ rfl
  | case4 start cycles hgt => exact h

theorem filter_firstBlock (h : Tiles genesisHeight cycles) :
    Tiles genesisHeight (cycles.filter (·.firstBlock ≤ height)) := by
  induction cycles with
  | nil => trivial
  | cons c older ih =>
    by_cases hc : c.firstBlock ≤ height
    · have hkeep : older.filter (·.firstBlock ≤ height) = older := by
        refine List.filter_eq_self.2 fun d hd => decide_eq_true ?_
        have hlt := h.lt_firstBlock hd
        have hle := h.2.2.le_lastBlock hd
        omega
      rw [List.filter_cons, if_pos (decide_eq_true hc), hkeep]
      exact h
    · rw [List.filter_cons, if_neg (mt of_decide_eq_true hc)]
      exact ih h.2.2

theorem lt_nextStart_filter (h : Tiles genesisHeight cycles)
    (hh : height < nextStart genesisHeight cycles) :
    height < nextStart genesisHeight (cycles.filter (·.firstBlock ≤ height)) := by
  induction cycles with
  | nil => exact hh
  | cons c older ih =>
    by_cases hc : c.firstBlock ≤ height
    · rw [List.filter_cons, if_pos (decide_eq_true hc)]
      exact hh
    · rw [List.filter_cons, if_neg (mt of_decide_eq_true hc)]
      exact ih h.2.2 (h.1 ▸ Nat.lt_of_not_le hc)

theorem filter_contains (h : Tiles genesisHeight cycles) (hg : genesisHeight ≤ height)
    (hh : height < nextStart genesisHeight cycles) :
    ∃ c, cycles.filter (·.contains height) = [c] := by
  induction cycles with
  | nil => exact absurd hh (Nat.not_lt.2 hg)
  | cons c older ih =>
    by_cases hc : c.contains height
    · have hdrop : older.filter (·.contains height) = [] := by
        refine List.filter_eq_nil_iff.2 fun d hd => ?_
        have hlt := h.lt_firstBlock hd
        rw [contains_iff] at hc ⊢
        omega
      exact ⟨c, by rw [List.filter_cons, if_pos hc, hdrop]⟩
    · rw [List.filter_cons, if_neg hc]
      refine ih h.2.2 ?_
      rw [contains_iff] at hc
      rw [nextStart] at hh
      rw [← h.1]
      omega

theorem getLast? (h : Tiles genesisHeight cycles) (hne : cycles ≠ []) :
    ∃ c, cycles.getLast? = some c ∧ c.firstBlock = genesisHeight := by
  induction cycles with
  | nil => exact absurd rfl hne
  | cons c older ih =>
    cases older with
    | nil => exact ⟨c, rfl, h.1⟩
    | cons d older =>
      rw [List.getLast?_cons_cons]
      exact ih h.2.2 (List.cons_ne_nil d older)

theorem isChain (h : Tiles genesisHeight cycles) :
    cycles.IsChain fun newer older => newer.firstBlock = older.lastBlock + 1 := by
  induction cycles with
  | nil => exact .nil
  | cons c older ih =>
    cases older with
    | nil => exact .singleton c
    | cons d older => exact .cons_cons h.1 (ih h.2.2)

end Tiles

/-- Old cycles are found before and after new ones are opened. -/
theorem Tiles.find?_cover (h : Tiles genesisHeight cycles)
    (hc : (cycles.find? (·.contains height)).isSome) (changes : List ParamChange) (top : Nat) :
    (Cycle.cover changes top (nextStart genesisHeight cycles) cycles).find? (·.contains height) =
      cycles.find? (·.contains height) := by
  obtain ⟨newer, heq, hnew⟩ :=
    cover_eq_append changes top (nextStart genesisHeight cycles) cycles
  obtain ⟨c, hfind⟩ := Option.isSome_iff_exists.1 hc
  have hin := List.find?_some hfind
  have hlt := h.lt_nextStart (List.mem_of_find?_eq_some hfind)
  have hnone : newer.find? (·.contains height) = none := by
    refine List.find?_eq_none.2 fun d hd => ?_
    have hstart := (hnew d hd).1
    rw [contains_iff] at hin ⊢
    omega
  rw [heq, List.find?_append, hnone, Option.none_or]

end Cycle

/-! ### Lengths -/

theorem ParamChange.mem_of_latest? {changes : List ParamChange} {c : ParamChange}
    (h : latest? changes = some c) : c ∈ changes := by
  induction changes with
  | nil => cases h
  | cons d changes ih =>
    rw [latest?] at h
    split at h
    · cases h
      exact List.mem_cons_self
    · next e he =>
      split at h
      · cases h
        exact List.mem_cons_of_mem d (ih he)
      · cases h
        exact List.mem_cons_self

theorem Param.valueAt_le {param : Param} {changes : List ParamChange} {bound : Nat}
    (hd : param.default ≤ bound) (hc : ∀ c ∈ changes, c.param = param → c.value ≤ bound)
    (height : Nat) : param.valueAt changes height ≤ bound := by
  rw [Param.valueAt]
  cases hl : ParamChange.latest? (changes.filter (·.effective param height)) with
  | none => exact hd
  | some c =>
    obtain ⟨hm, he⟩ := List.mem_filter.1 (ParamChange.mem_of_latest? hl)
    rw [ParamChange.effective, Bool.and_eq_true, decide_eq_true_eq] at he
    exact hc c hm he.1

theorem Phase.default_durationParam_le (phase : Phase) :
    phase.durationParam.default ≤ Param.maxPhaseDuration := by
  cases phase <;> decide

theorem Phase.max?_durationParam (phase : Phase) :
    phase.durationParam.max? = some Param.maxPhaseDuration := by
  cases phase <;> rfl

namespace Cycle
variable {changes : List ParamChange} {genesisHeight height start : Nat} {cycles : List Cycle}

/-- A cycle that started at any height would have blocks. -/
def Positive (changes : List ParamChange) : Prop :=
  ∀ height : UInt32, ∃ phase : Phase, 0 < phase.durationParam.valueAt changes height.toNat

theorem foldl_heightSum_eq_zero {phases : List (Phase × Nat)} {n : Nat} :
    phases.foldl (fun total p => heightSum total p.2) n = 0 ↔ n = 0 ∧ ∀ p ∈ phases, p.2 = 0 := by
  induction phases generalizing n with
  | nil => simp
  | cons p phases ih =>
    have hsum : heightSum n p.2 = 0 ↔ n = 0 ∧ p.2 = 0 := by
      have hl := heightLimit_eq
      rw [heightSum]
      omega
    rw [List.foldl_cons, ih, hsum, List.forall_mem_cons, and_assoc]

theorem duration_startingAt_ne_zero (hp : Positive changes) (hs : start < heightLimit) :
    (startingAt changes start).duration ≠ 0 := by
  intro hzero
  have hstart : (UInt32.ofNat start).toNat = start :=
    UInt32.toNat_ofNat_of_lt' (by rw [heightLimit_eq] at hs; exact Nat.lt_succ_of_lt hs)
  obtain ⟨phase, hphase⟩ := hp (UInt32.ofNat start)
  have hmem : phase ∈ Phase.all := by cases phase <;> decide
  have hphases := (foldl_heightSum_eq_zero.1 hzero).2
  have hlength := hphases _ (List.mem_map_of_mem hmem)
  have hl := heightLimit_eq
  rw [hstart] at hphase
  dsimp only at hlength
  omega

theorem positive_of_unchanged {phase : Phase}
    (hc : ∀ c ∈ changes, c.param ≠ phase.durationParam) : Positive changes := by
  intro height
  have hnone : changes.filter (·.effective phase.durationParam height.toNat) = [] := by
    refine List.filter_eq_nil_iff.2 fun c hm => ?_
    simp [ParamChange.effective, hc c hm]
  refine ⟨phase, ?_⟩
  rw [Param.valueAt, hnone]
  cases phase <;> decide

theorem lt_nextStart_cover_of_positive (hp : Positive changes)
    (hs : nextStart genesisHeight cycles = start) (hh : height < heightLimit) :
    height < nextStart genesisHeight (cover changes height start cycles) := by
  fun_induction cover changes height start cycles with
  | case1 start cycles hle c hzero =>
    exact absurd hzero (duration_startingAt_ne_zero hp (Nat.lt_of_le_of_lt hle hh))
  | case2 start cycles hle c hne hlast =>
    exact absurd hlast (Nat.not_lt.2 (le_lastBlock_startingAt (Nat.lt_of_le_of_lt hle hh) hne))
  | case3 start cycles hle c hne hlast ih => exact ih rfl
  | case4 start cycles hgt => omega

def Bounded (cycles : List Cycle) : Prop :=
  ∀ c ∈ cycles, ∀ p ∈ c.phases, p.2 ≤ Param.maxPhaseDuration

theorem bounded_startingAt (hc : ∀ c ∈ changes, Ledger.outOfRange? (.paramChange c) = none)
    (start : Nat) : ∀ p ∈ (startingAt changes start).phases, p.2 ≤ Param.maxPhaseDuration := by
  intro p hp
  obtain ⟨phase, -, rfl⟩ := List.mem_map.1 hp
  refine Nat.le_trans (Nat.min_le_left ..)
    (Param.valueAt_le phase.default_durationParam_le (fun c hm hparam => ?_) start)
  have hrange := hc c hm
  rw [Ledger.outOfRange?, hparam, phase.max?_durationParam, Option.bind_some] at hrange
  apply Nat.le_of_not_lt
  intro hlt
  rw [if_pos hlt] at hrange
  cases hrange

theorem Bounded.cover (h : Bounded cycles)
    (hc : ∀ c ∈ changes, Ledger.outOfRange? (.paramChange c) = none) :
    Bounded (cover changes height start cycles) := by
  have hnew := bounded_startingAt hc
  fun_induction Cycle.cover changes height start cycles with
  | case1 start cycles hle c hzero => exact h
  | case2 start cycles hle c hne hlast => exact h
  | case3 start cycles hle c hne hlast ih => exact ih (List.forall_mem_cons.2 ⟨hnew start, h⟩)
  | case4 start cycles hgt => exact h

end Cycle

namespace Ledger
variable {l l' : Ledger} {raw : RawBlock}

/-! ### Runs -/

/-- What every run keeps, also when cycles are missing because they would be empty. -/
structure Timed (l : Ledger) : Prop where
  begun : l.Begun
  tiles : Cycle.Tiles l.genesis.blockHeight.toNat l.cycles
  bounded : Cycle.Bounded l.cycles
  inRange : ∀ c ∈ l.paramChanges, outOfRange? (.paramChange c) = none
  heights : (l.chain.map (·.height)).Pairwise (· > ·)
  genesis_le : ∀ height ∈ l.chain.map (·.height), l.genesis.blockHeight ≤ height

/-- The cycles reach above the tip. -/
def Reached (l : Ledger) : Prop :=
  ∀ height ∈ (l.chain.map (·.height)).head?,
    height.toNat < Cycle.nextStart l.genesis.blockHeight.toNat l.cycles

structure SameTimes (l l' : Ledger) : Prop where
  genesis : l'.genesis = l.genesis
  heights : l'.chain.map (·.height) = l.chain.map (·.height)
  cycles : l'.cycles = l.cycles
  changes : ∀ c ∈ l'.paramChanges, c ∈ l.paramChanges ∨ outOfRange? (.paramChange c) = none

theorem Timed.new (g : Genesis) : (Ledger.new g).Timed where
  begun := .new g
  tiles := trivial
  bounded := by simp [Cycle.Bounded, Ledger.new]
  inRange := by simp [Ledger.new]
  heights := by simp [Ledger.new]
  genesis_le := by simp [Ledger.new]

theorem heights_opened (h : (l.chain.map (·.height)).Pairwise (· > ·))
    (hm : l.misfit? raw = none) : ((l.opened raw).chain.map (·.height)).Pairwise (· > ·) := by
  refine List.pairwise_cons.2 ⟨fun height hmem => ?_, h⟩
  obtain ⟨-, htip⟩ := misfit?_eq_none.1 hm
  cases hc : l.chain with
  | nil => simp [hc] at hmem
  | cons tip older =>
    have hlt := (htip tip (by rw [hc]; rfl)).1
    rw [hc, List.map_cons] at hmem h
    cases hmem with
    | head => exact hlt
    | tail _ hmem => exact UInt32.lt_trans ((List.pairwise_cons.1 h).1 height hmem) hlt

theorem heights_removeTip (h : (l.chain.map (·.height)).Pairwise (· > ·)) {block : Block}
    (hr : l.removeTip = some (block, l')) : (l'.chain.map (·.height)).Pairwise (· > ·) := by
  obtain ⟨older, hc, hchain, -⟩ := removeTip_rest hr
  rw [hc, List.map_cons] at h
  rw [hchain]
  exact (List.pairwise_cons.1 h).2

theorem Timed.opened (h : l.Timed) (hm : l.misfit? raw = none)
    (hr : raw.height.toNat < heightLimit) : (l.opened raw).Timed where
  begun := h.begun.opened hm
  tiles := h.tiles.cover rfl hr
  bounded := h.bounded.cover h.inRange
  inRange := h.inRange
  heights := heights_opened h.heights hm
  genesis_le := List.forall_mem_cons.2 ⟨(misfit?_eq_none.1 hm).1, h.genesis_le⟩

theorem Reached.opened (hp : Cycle.Positive l.paramChanges) (hr : raw.height.toNat < heightLimit) :
    (l.opened raw).Reached := by
  intro height hh
  cases hh
  exact Cycle.lt_nextStart_cover_of_positive hp rfl hr

theorem SameTimes.begun (h : SameTimes l l') (hb : l.Begun) : l'.Begun := by
  refine ⟨fun tip' htip' c hc => ?_, fun hnil => ?_⟩
  · have hheads : l'.chain.head?.map Block.height = l.chain.head?.map Block.height := by
      rw [← List.head?_map, ← List.head?_map, h.heights]
    rw [htip', Option.map_some] at hheads
    obtain ⟨tip, htip, heq⟩ := Option.map_eq_some_iff.1 hheads.symm
    rw [← heq]
    exact hb.started tip htip c (h.cycles ▸ hc)
  · have hnil' : l.chain = [] := by
      rw [← List.map_eq_nil_iff, ← h.heights, hnil, List.map_nil]
    rw [h.cycles, hb.empty hnil']

theorem Timed.of_same (h : l.Timed) (hs : SameTimes l l') : l'.Timed where
  begun := hs.begun h.begun
  tiles := by rw [hs.genesis, hs.cycles]; exact h.tiles
  bounded := by rw [hs.cycles]; exact h.bounded
  inRange c hc := (hs.changes c hc).elim (h.inRange c) id
  heights := by rw [hs.heights]; exact h.heights
  genesis_le := by rw [hs.heights, hs.genesis]; exact h.genesis_le

theorem Reached.of_same (h : l.Reached) (hs : SameTimes l l') : l'.Reached := by
  rw [Reached, hs.heights, hs.genesis, hs.cycles]
  exact h

theorem map_height_modifyHead (chain : List Block) (f : Block → Block)
    (hf : ∀ b, (f b).height = b.height) :
    (chain.modifyHead f).map (·.height) = chain.map (·.height) := by
  cases chain with
  | nil => rfl
  | cons b older => simp [hf]

theorem SameTimes.refl (l : Ledger) : SameTimes l l := ⟨rfl, rfl, rfl, fun _ => .inl⟩

theorem sameTimes_written (l : Ledger) (tx : Tx) : SameTimes l (l.written tx) :=
  ⟨rfl, map_height_modifyHead _ _ fun _ => rfl, rfl, fun _ => .inl⟩

theorem sameTimes_noted (l : Ledger) {event : Event} (ho : outOfRange? event = none) :
    SameTimes l (l.noted event) := by
  refine ⟨rfl, map_height_modifyHead _ _ fun _ => rfl, rfl, fun c hc => ?_⟩
  cases List.mem_append.1 hc with
  | inl hc => exact .inl hc
  | inr hc =>
    cases event with
    | paramChange change =>
      rw [List.mem_singleton.1 hc]
      exact .inr ho
    | _ => cases hc

theorem Timed.removeTip (h : l.Timed) {block : Block} (hr : l.removeTip = some (block, l')) :
    l'.Timed := by
  obtain ⟨older, hc, hchain, hg, hcycles, hparams⟩ := removeTip_rest hr
  have hsub : cyclesBelow older l.cycles ⊆ l.cycles := by
    cases older with
    | nil => exact List.nil_subset _
    | cons tip older => exact List.filter_subset_self _
  have htiles : Cycle.Tiles l.genesis.blockHeight.toNat (cyclesBelow older l.cycles) := by
    cases older with
    | nil => trivial
    | cons tip older => exact h.tiles.filter_firstBlock
  have hgenesis := h.genesis_le
  rw [hc, List.map_cons] at hgenesis
  exact {
    begun := begun_of_cyclesBelow (hchain ▸ hcycles)
    tiles := by rw [hg, hcycles]; exact htiles
    bounded := fun c hm => h.bounded c (hsub (hcycles ▸ hm))
    inRange := fun c hm => h.inRange c (List.mem_of_mem_filter (hparams ▸ hm))
    heights := heights_removeTip h.heights hr
    genesis_le := by rw [hchain, hg]; exact (List.forall_mem_cons.1 hgenesis).2 }

theorem Reached.removeTip (h : l.Reached) (ht : l.Timed) {block : Block}
    (hr : l.removeTip = some (block, l')) : l'.Reached := by
  obtain ⟨older, hc, hchain, hg, hcycles, -⟩ := removeTip_rest hr
  intro height hh
  rw [hchain] at hh
  cases older with
  | nil => cases hh
  | cons tip older =>
    cases hh
    have hheights := ht.heights
    rw [hc] at hheights
    have hlt := UInt32.lt_iff_toNat_lt.1 ((List.pairwise_cons.1 hheights).1 tip.height (by simp))
    have htop := h block.height (by simp [hc])
    rw [hg, hcycles]
    exact ht.tiles.lt_nextStart_filter (Nat.lt_trans hlt htop)

inductive Timing (l : Ledger) : Write → Ledger → Prop where
  | opened {raw : RawBlock} (hm : l.misfit? raw = none) : Timing l (.start raw) (l.opened raw)
  | removed {block : Block} {l' : Ledger} (hr : l.removeTip = some (block, l')) :
      Timing l .removeTip l'
  | same {w : Write} {l' : Ledger} (hs : SameTimes l l') : Timing l w l'

theorem timing_write (l : Ledger) (w : Write) : Timing l w (l.write w) := by
  cases w with
  | start raw =>
    refine started_cases (.same (.refl l)) fun l' hs => ?_
    obtain ⟨hm, -, rfl⟩ := start_eq_ok.1 hs
    exact .opened hm
  | addTx tx =>
    refine kept_cases (.same (.refl l)) fun l' ha => ?_
    obtain ⟨-, rfl⟩ := addTx_eq_ok.1 ha
    exact .same (sameTimes_written l tx)
  | addEvent event =>
    refine kept_cases (.same (.refl l)) fun l' ha => ?_
    obtain ⟨ho, -, rfl⟩ := addEvent_eq_ok.1 ha
    exact .same (sameTimes_noted l ho)
  | addIssuance txId height =>
    refine kept_cases (.same (.refl l)) fun l' ha => ?_
    obtain ⟨-, rfl⟩ := addIssuance_eq_ok.1 ha
    exact .same ⟨rfl, rfl, rfl, fun _ => .inl⟩
  | removeTip =>
    rw [Ledger.write]
    cases hr : l.removeTip with
    | none => exact .same (.refl l)
    | some r => exact .removed hr

section
variable {w : Write}

theorem Timed.step (h : l.Timed) (hl : Timing l w l')
    (hw : ∀ raw, w = .start raw → raw.height.toNat < heightLimit) : l'.Timed := by
  cases hl with
  | opened hm => exact h.opened hm (hw _ rfl)
  | removed hr => exact h.removeTip hr
  | same hs => exact h.of_same hs

theorem Reached.step (h : l.Reached) (ht : l.Timed) (hp : Cycle.Positive l.paramChanges)
    (hl : Timing l w l') (hw : ∀ raw, w = .start raw → raw.height.toNat < heightLimit) :
    l'.Reached := by
  cases hl with
  | opened hm => exact Reached.opened hp (hw _ rfl)
  | removed hr => exact h.removeTip ht hr
  | same hs => exact h.of_same hs

theorem Timed.cycleAt?_step (h : l.Timed) (hl : Timing l w l') (hw : w ≠ .removeTip) {height : Nat}
    (hc : (l.cycleAt? height).isSome) : l'.cycleAt? height = l.cycleAt? height := by
  cases hl with
  | @opened raw hm => exact h.tiles.find?_cover hc l.paramChanges raw.height.toNat
  | removed hr => exact absurd rfl hw
  | same hs => rw [cycleAt?, cycleAt?, hs.cycles]

end

theorem Timed.writeAll (h : l.Timed) {ws : List Write}
    (hw : ∀ raw, .start raw ∈ ws → raw.height.toNat < heightLimit) : (l.writeAll ws).Timed := by
  induction ws generalizing l with
  | nil => exact h
  | cons w ws ih =>
    have hw' raw (he : w = .start raw) : raw.height.toNat < heightLimit :=
      hw raw (he ▸ List.mem_cons_self)
    exact ih (h.step (timing_write l w) hw') fun raw hm => hw raw (List.mem_cons_of_mem _ hm)

theorem Reached.writeAll (h : l.Reached) (ht : l.Timed) {ws : List Write}
    (hw : ∀ raw, .start raw ∈ ws → raw.height.toNat < heightLimit)
    (hp : ∀ seen, seen <+: ws → Cycle.Positive (l.writeAll seen).paramChanges) :
    (l.writeAll ws).Reached := by
  induction ws generalizing l with
  | nil => exact h
  | cons w ws ih =>
    have hw' raw (he : w = .start raw) : raw.height.toNat < heightLimit :=
      hw raw (he ▸ List.mem_cons_self)
    have hl := timing_write l w
    refine ih (h.step ht (hp [] (List.nil_prefix ..)) hl hw') (ht.step hl hw')
      (fun raw hm => hw raw (List.mem_cons_of_mem _ hm)) fun seen hs => ?_
    exact hp (w :: seen) (List.cons_prefix_cons.2 ⟨rfl, hs⟩)

/-- The cycles cover the heights from the genesis height to the end of the current cycle, each of
them once. -/
structure Tiled (l : Ledger) : Prop where
  oldest : ∃ c, l.cycles.getLast? = some c ∧ c.firstBlock = l.genesis.blockHeight.toNat
  next : l.cycles.IsChain fun newer older => newer.firstBlock = older.lastBlock + 1
  ordered : ∀ c ∈ l.cycles, c.firstBlock ≤ c.lastBlock
  bounded : ∀ c ∈ l.cycles, ∀ p ∈ c.phases, p.2 ≤ Param.maxPhaseDuration
  current : ∃ c, l.cycles.head? = some c ∧
    (∀ tip, l.tip? = some tip → c.contains tip.height.toNat) ∧
      ∀ height, l.genesis.blockHeight.toNat ≤ height → height ≤ c.lastBlock →
        ∃ d, l.cycles.filter (·.contains height) = [d]

theorem Timed.tiled (h : l.Timed) (hr : l.Reached) (hne : l.chain ≠ []) : l.Tiled := by
  obtain ⟨tip, older, hc⟩ := List.exists_cons_of_ne_nil hne
  have hreach := hr tip.height (by simp [hc])
  have hgenesis := UInt32.le_iff_toNat_le.1 (h.genesis_le tip.height (by simp [hc]))
  have htip : l.chain.head? = some tip := by rw [hc]; rfl
  cases hcycles : l.cycles with
  | nil =>
    rw [hcycles] at hreach
    exact absurd hreach (Nat.not_lt.2 hgenesis)
  | cons c rest =>
    have hmem : c ∈ l.cycles := hcycles ▸ List.mem_cons_self
    have hne' : l.cycles ≠ [] := hcycles ▸ List.cons_ne_nil c rest
    have hend : Cycle.nextStart l.genesis.blockHeight.toNat l.cycles = c.lastBlock + 1 := by
      rw [hcycles]
      rfl
    refine ⟨h.tiles.getLast? hne', h.tiles.isChain, fun d hd => h.tiles.le_lastBlock hd, h.bounded,
      c, by rw [hcycles]; rfl, fun tip' htip' => ?_, fun height hg hle => ?_⟩
    · cases htip.symm.trans htip'
      rw [Cycle.contains_iff]
      rw [hend] at hreach
      exact ⟨h.begun.started tip htip c hmem, Nat.le_of_lt_succ hreach⟩
    · exact h.tiles.filter_contains hg (hend ▸ Nat.lt_succ_of_le hle)

/-- Cycles tile the chain as long as none would be empty, and a height keeps its cycle and its
phase until the tip is removed. -/
theorem tiled_of_writes (g : Genesis) (ws : List Write)
    (hw : ∀ raw, .start raw ∈ ws → raw.height.toNat < heightLimit) :
    let l := (Ledger.new g).writeAll ws
    ((∀ seen, seen <+: ws → Cycle.Positive ((Ledger.new g).writeAll seen).paramChanges) →
        l.chain ≠ [] → l.Tiled) ∧
      ∀ w, w ≠ .removeTip → ∀ height, (l.cycleAt? height).isSome →
        (l.write w).cycleAt? height = l.cycleAt? height ∧
          (l.write w).phaseAt? height = l.phaseAt? height := by
  intro l
  have ht : l.Timed := (Timed.new g).writeAll hw
  have hr : (Ledger.new g).Reached := fun _ h => nomatch h
  refine ⟨fun hp hne => ht.tiled (hr.writeAll (.new g) hw hp) hne, fun w hne height hc => ?_⟩
  have hcycle := ht.cycleAt?_step (timing_write l w) hne hc
  exact ⟨hcycle, by rw [phaseAt?, phaseAt?, hcycle]⟩

def sampleTimes : List Write :=
  [.start Sample.first, .addEvent (.paramChange ⟨.phaseProposal, 1, 4000⟩), .start Sample.second,
    .removeTip, .start { Sample.second with height := 6000 }]

theorem tiled_sampleTimes :
    (∀ raw, .start raw ∈ sampleTimes → raw.height.toNat < heightLimit) ∧
      ((Ledger.new Sample.genesis).writeAll sampleTimes).cycles.map
          (fun c => (c.firstBlock, c.lastBlock)) = [(5755, 6827), (4682, 5754), (10, 4681)] ∧
      ((Ledger.new Sample.genesis).writeAll sampleTimes).Tiled ∧
      (((Ledger.new Sample.genesis).writeAll sampleTimes).write
          (.addEvent (.paramChange ⟨.phaseBreak1, 0, 0⟩))).phaseAt? 4682 = some .proposal := by
  have hlow : ∀ raw, .start raw ∈ sampleTimes → raw.height.toNat < heightLimit := by
    intro raw hraw
    simp only [sampleTimes, List.mem_cons, Write.start.injEq, reduceCtorEq, List.not_mem_nil,
      or_false, false_or] at hraw
    obtain rfl | rfl | rfl := hraw <;> decide
  have hbreak : ∀ n < 6,
      ∀ c ∈ ((Ledger.new Sample.genesis).writeAll (sampleTimes.take n)).paramChanges,
        c.param ≠ Phase.break1.durationParam := by decide +kernel
  obtain ⟨htiled, hkept⟩ := tiled_of_writes Sample.genesis sampleTimes hlow
  refine ⟨hlow, by decide +kernel, htiled (fun seen hs => ?_) (by decide +kernel), ?_⟩
  · rw [List.prefix_iff_eq_take.1 hs]
    exact Cycle.positive_of_unchanged (hbreak seen.length (Nat.lt_succ_of_le hs.length_le))
  · rw [(hkept _ (by simp) 4682 (by decide +kernel)).2]
    decide +kernel

end Ledger
end DaoLedger
