import DaoLedger.Proofs.Indexed
/-!
Which cycles covering a height opens. Main statements: removing the tip drops just the cycles that
were opened for it, unless some of them start below the old tip; as long as no param was changed,
none does.
-/
namespace DaoLedger.Cycle
variable {changes : List ParamChange} {height start genesisHeight : Nat} {cycles : List Cycle}

/-- New cycles stand before the old ones and start from `start` up to the height. -/
theorem cover_eq_append (changes : List ParamChange) (height start : Nat) (cycles : List Cycle) :
    ∃ newer, cover changes height start cycles = newer ++ cycles ∧
      ∀ c ∈ newer, start ≤ c.firstBlock ∧ c.firstBlock ≤ height := by
  fun_induction cover changes height start cycles with
  | case1 start cycles hle c hzero => exact ⟨[], rfl, by simp⟩
  | case2 start cycles hle c hne hlast => exact ⟨[], rfl, by simp⟩
  | case3 start cycles hle c hne hlast ih =>
    obtain ⟨newer, heq, hnew⟩ := ih
    refine ⟨newer ++ [c], by rw [heq, List.append_assoc]; rfl, fun d hd => ?_⟩
    rcases List.mem_append.1 hd with hd | hd
    · have := hnew d hd
      omega
    · rw [List.mem_singleton.1 hd]
      exact ⟨Nat.le_refl start, hle⟩
  | case4 start cycles hgt => exact ⟨[], rfl, by simp⟩

theorem cover_of_duration_eq_zero (hd : (startingAt changes start).duration = 0) :
    cover changes height start cycles = cycles := by
  unfold cover
  simp [hd]

theorem heightLimit_eq : heightLimit = 4294967295 := by decide

theorem lt_heightLimit {bound : UInt32} (h : height < bound.toNat) : height < heightLimit := by
  have := bound.toNat_lt
  rw [heightLimit_eq]
  omega

theorem le_lastBlock_startingAt (hs : start < heightLimit)
    (hd : (startingAt changes start).duration ≠ 0) :
    start ≤ (startingAt changes start).lastBlock := by
  have hl : (startingAt changes start).lastBlock =
      min (start + (startingAt changes start).duration) heightLimit - 1 := rfl
  omega

theorem cover_eq_append_cons (hle : start ≤ height) (hs : start < heightLimit)
    (hd : (startingAt changes start).duration ≠ 0) :
    ∃ newer, cover changes height start cycles =
      newer ++ startingAt changes start :: cycles := by
  have hlast := Nat.not_lt.2 (le_lastBlock_startingAt hs hd)
  unfold cover
  simp only [hle, hd, hlast, if_true, if_false]
  obtain ⟨newer, heq, -⟩ := cover_eq_append changes height
    ((startingAt changes start).lastBlock + 1) (startingAt changes start :: cycles)
  exact ⟨newer, heq⟩

theorem valueAt_nil (param : Param) (height : Nat) : param.valueAt [] height = param.default := by
  simp [Param.valueAt, ParamChange.latest?]

theorem duration_startingAt_nil (start : Nat) : (startingAt [] start).duration = 4672 := by
  simp [duration, startingAt, Phase.all, Phase.durationParam, valueAt_nil, Param.default, heightSum,
    heightLimit_eq]

theorem lastBlock_startingAt_nil (start : Nat) :
    (startingAt [] start).lastBlock = min (start + 4672) heightLimit - 1 := by
  rw [lastBlock, duration_startingAt_nil, startingAt, heightSum]

theorem lt_nextStart_cover (hs : nextStart genesisHeight cycles = start)
    (hh : height < heightLimit) :
    height < nextStart genesisHeight (cover [] height start cycles) := by
  fun_induction cover [] height start cycles with
  | case1 start cycles hle c hzero =>
    have hd : c.duration = 4672 := duration_startingAt_nil start
    omega
  | case2 start cycles hle c hne hlast =>
    have hl : c.lastBlock = min (start + 4672) heightLimit - 1 := lastBlock_startingAt_nil start
    omega
  | case3 start cycles hle c hne hlast ih => exact ih rfl
  | case4 start cycles hgt => omega

end DaoLedger.Cycle

namespace DaoLedger

structure Ledger.Begun (l : Ledger) : Prop where
  started : ∀ tip, l.chain.head? = some tip → ∀ c ∈ l.cycles, c.firstBlock ≤ tip.height.toNat
  empty : l.chain = [] → l.cycles = []

/-- The next cycle starts above the tip, or it has no blocks and is not opened. -/
def Ledger.UpToDate (l : Ledger) : Prop :=
  ∀ tip, l.chain.head? = some tip →
    tip.height.toNat < Cycle.nextStart l.genesis.blockHeight.toNat l.cycles ∨
      (Cycle.startingAt l.paramChanges
        (Cycle.nextStart l.genesis.blockHeight.toNat l.cycles)).duration = 0

/-- The cycles reach as far as the chain and no further: none starts above the tip, and the next
one does. -/
structure Ledger.Covered (l : Ledger) : Prop where
  started : ∀ tip, l.chain.head? = some tip → ∀ c ∈ l.cycles, c.firstBlock ≤ tip.height.toNat
  next : ∀ tip, l.chain.head? = some tip → tip.height.toNat < heightLimit →
    tip.height.toNat < Cycle.nextStart l.genesis.blockHeight.toNat l.cycles
  empty : l.chain = [] → l.cycles = []

namespace Ledger
variable {l : Ledger} {raw : RawBlock}

theorem Begun.new (g : Genesis) : (Ledger.new g).Begun := ⟨by simp [Ledger.new], fun _ => rfl⟩

theorem Begun.opened (h : l.Begun) (hm : l.misfit? raw = none) : (l.opened raw).Begun := by
  obtain ⟨newer, heq, hnew⟩ := Cycle.cover_eq_append l.paramChanges raw.height.toNat
    (Cycle.nextStart l.genesis.blockHeight.toNat l.cycles) l.cycles
  refine ⟨?_, by simp [Ledger.opened]⟩
  rintro tip ⟨rfl⟩ c hc
  rw [Ledger.opened, heq] at hc
  rcases List.mem_append.1 hc with hc | hc
  · exact (hnew c hc).2
  · cases hchain : l.chain with
    | nil => rw [h.empty hchain] at hc; cases hc
    | cons tip older =>
      have hhead : l.chain.head? = some tip := by rw [hchain]; rfl
      have hlt := UInt32.lt_iff_toNat_lt.1 (height_of_misfit? hm hhead)
      have hle := h.started tip hhead c hc
      exact Nat.le_trans hle (Nat.le_of_lt hlt)

theorem begun_of_cyclesBelow {cycles : List Cycle} (h : l.cycles = cyclesBelow l.chain cycles) :
    l.Begun := by
  refine ⟨fun tip htip c hc => ?_, fun hnil => by rw [h, hnil, cyclesBelow]⟩
  obtain ⟨older, hchain⟩ := List.head?_eq_some_iff.1 htip
  rw [h, hchain, cyclesBelow] at hc
  exact of_decide_eq_true (List.mem_filter.1 hc).2

/-- What opening a block does to the cycles is undone with the block, unless a cycle that the old
tip called for was missing. -/
theorem Begun.cyclesBelow_opened (h : l.Begun) (hm : l.misfit? raw = none) :
    cyclesBelow l.chain (l.opened raw).cycles = l.cycles ↔ l.UpToDate := by
  cases hc : l.chain with
  | nil => simp [cyclesBelow, h.empty hc, UpToDate, hc]
  | cons tip older =>
    have hhead : l.chain.head? = some tip := by rw [hc]; rfl
    have hlt := UInt32.lt_iff_toNat_lt.1 (height_of_misfit? hm hhead)
    have hkeep : l.cycles.filter (fun c => c.firstBlock ≤ tip.height.toNat) = l.cycles :=
      List.filter_eq_self.2 fun c hcm => decide_eq_true (h.started tip hhead c hcm)
    rw [cyclesBelow, Ledger.opened]
    dsimp only
    constructor
    · intro heq tip' htip'
      cases hhead.symm.trans htip'
      by_contra hnot
      simp only [not_or, Nat.not_lt] at hnot
      -- The missing cycle starts up to the tip, so it stays.
      let next := Cycle.startingAt l.paramChanges
        (Cycle.nextStart l.genesis.blockHeight.toNat l.cycles)
      obtain ⟨newer, hcover⟩ : ∃ newer, Cycle.cover l.paramChanges raw.height.toNat
          (Cycle.nextStart l.genesis.blockHeight.toNat l.cycles) l.cycles =
            newer ++ next :: l.cycles :=
        Cycle.cover_eq_append_cons (Nat.le_trans hnot.1 (Nat.le_of_lt hlt))
          (Nat.lt_of_le_of_lt hnot.1 (Cycle.lt_heightLimit hlt)) hnot.2
      have hlow : next.firstBlock ≤ tip.height.toNat := hnot.1
      rw [hcover, List.filter_append, List.filter_cons, decide_eq_true hlow, if_pos rfl, hkeep]
        at heq
      have hlength := congrArg List.length heq
      simp at hlength
      omega
    · intro hup
      rcases hup tip hhead with hnext | hzero
      · obtain ⟨newer, hcover, hnew⟩ := Cycle.cover_eq_append l.paramChanges raw.height.toNat
          (Cycle.nextStart l.genesis.blockHeight.toNat l.cycles) l.cycles
        have hdrop : newer.filter (fun c => c.firstBlock ≤ tip.height.toNat) = [] := by
          refine List.filter_eq_nil_iff.2 fun c hcm => ?_
          have := (hnew c hcm).1
          simp
          omega
        rw [hcover, List.filter_append, hdrop, hkeep, List.nil_append]
      · rw [Cycle.cover_of_duration_eq_zero hzero, hkeep]

theorem Covered.new (g : Genesis) : (Ledger.new g).Covered :=
  ⟨by simp [Ledger.new], by simp [Ledger.new], fun _ => rfl⟩

theorem Covered.begun (h : l.Covered) : l.Begun := ⟨h.started, h.empty⟩

theorem Covered.cyclesBelow_opened (h : l.Covered)
    (hm : l.misfit? raw = none) : cyclesBelow l.chain (l.opened raw).cycles = l.cycles := by
  refine (h.begun.cyclesBelow_opened hm).2 fun tip htip => .inl (h.next tip htip ?_)
  exact Cycle.lt_heightLimit (UInt32.lt_iff_toNat_lt.1 (height_of_misfit? hm htip))

theorem Covered.opened (h : l.Covered) (hp : l.paramChanges = []) (hm : l.misfit? raw = none) :
    (l.opened raw).Covered := by
  refine ⟨(h.begun.opened hm).started, ?_, by simp [Ledger.opened]⟩
  rintro tip ⟨rfl⟩ hlt
  rw [Ledger.opened, hp]
  exact Cycle.lt_nextStart_cover rfl hlt

end Ledger

end DaoLedger
