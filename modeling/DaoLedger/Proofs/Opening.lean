import Mathlib.Computability.StateTransition
import DaoLedger.Proofs.Tiling
/-!
Whether opening a block ends. Cycles are opened in rounds until the height is covered or the next
cycle would have no blocks. Main statement: below the height limit the rounds always end, with the
cycles of the opened ledger; at the limit they end just where a cycle without blocks comes up. For a
cycle that starts at the limit covers nothing, and each further round opens it again.
-/
namespace DaoLedger

namespace Cycle
open StateTransition (eval Reaches)
variable {changes : List ParamChange} {genesisHeight height start : Nat} {cycles after : List Cycle}

def Exhausted (changes : List ParamChange) (genesisHeight : Nat) (cycles : List Cycle) : Prop :=
  (startingAt changes (nextStart genesisHeight cycles)).duration = 0

theorem round?_eq_none : round? changes genesisHeight height cycles = none ↔
    height < nextStart genesisHeight cycles ∨ Exhausted changes genesisHeight cycles := by
  have hfirst : (startingAt changes (nextStart genesisHeight cycles)).firstBlock =
      nextStart genesisHeight cycles := rfl
  simp only [round?, hfirst, ite_eq_right_iff, reduceCtorEq, imp_false, not_and_or, Nat.not_le,
    not_not, Exhausted]

theorem round?_eq_some : round? changes genesisHeight height cycles = some after ↔
    nextStart genesisHeight cycles ≤ height ∧ ¬Exhausted changes genesisHeight cycles ∧
      after = startingAt changes (nextStart genesisHeight cycles) :: cycles := by
  have hfirst : (startingAt changes (nextStart genesisHeight cycles)).firstBlock =
      nextStart genesisHeight cycles := rfl
  rw [round?, Option.ite_none_right_eq_some, hfirst, and_assoc, Option.some.injEq, eq_comm,
    Exhausted]

theorem nextStart_le (hg : genesisHeight ≤ heightLimit) (cycles : List Cycle) :
    nextStart genesisHeight cycles ≤ heightLimit := by
  have hlimit := heightLimit_eq
  cases cycles with
  | nil => exact hg
  | cons c older =>
    rw [nextStart, lastBlock, heightSum]
    omega

/-! ### The height limit -/

theorem nextStart_round (hs : nextStart genesisHeight cycles = heightLimit)
    (hr : round? changes genesisHeight height cycles = some after) :
    nextStart genesisHeight after = heightLimit := by
  obtain ⟨-, hblocks, rfl⟩ := round?_eq_some.1 hr
  have hlimit := heightLimit_eq
  have hpos : (startingAt changes heightLimit).duration ≠ 0 := hs ▸ hblocks
  have hfirst : (startingAt changes heightLimit).firstBlock = heightLimit := rfl
  rw [hs, nextStart, lastBlock, heightSum, hfirst]
  omega

theorem not_dom_of_limit (hs : nextStart genesisHeight cycles = heightLimit)
    (hh : heightLimit ≤ height) (hblocks : (startingAt changes heightLimit).duration ≠ 0) :
    ¬(eval (round? changes genesisHeight height) cycles).Dom := by
  intro hdom
  obtain ⟨hreach, hend⟩ := StateTransition.mem_eval.1 (Part.get_mem hdom)
  -- Every round stays at the limit, so there is always a further one.
  have hlimit {b : List Cycle} (hb : Reaches (round? changes genesisHeight height) cycles b) :
      nextStart genesisHeight b = heightLimit := by
    induction hb with
    | refl => exact hs
    | tail _ hround ih => exact nextStart_round ih hround
  have hnext := hlimit hreach
  rcases round?_eq_none.1 hend with hlow | hzero
  · exact absurd (hnext ▸ hlow) (Nat.not_lt.2 hh)
  · rw [Exhausted, hnext] at hzero
    exact hblocks hzero

/-! ### Rounds that end -/

theorem reaches_cover (hs : nextStart genesisHeight cycles = start) :
    Reaches (round? changes genesisHeight height) cycles (cover changes height start cycles) := by
  fun_induction cover changes height start cycles with
  | case1 start cycles hle c hzero => exact .refl
  | case2 start cycles hle c hne hlast => exact .refl
  | case3 start cycles hle c hne hlast ih =>
    exact .head (round?_eq_some.2 ⟨hs ▸ hle, by rwa [Exhausted, hs], by rw [hs]⟩) (ih rfl)
  | case4 start cycles hgt => exact .refl

/-- Where no round gets any further, none is due or the next cycle starts at the height limit. -/
theorem round?_cover (hs : nextStart genesisHeight cycles = start) (hh : height ≤ heightLimit) :
    let reached := cover changes height start cycles
    round? changes genesisHeight height reached = none ∨
      nextStart genesisHeight reached = heightLimit ∧ heightLimit ≤ height ∧
        (startingAt changes heightLimit).duration ≠ 0 := by
  fun_induction cover changes height start cycles with
  | case1 start cycles hle c hzero =>
    exact .inl (round?_eq_none.2 (.inr (by rwa [Exhausted, hs])))
  | case2 start cycles hle c hne hlast =>
    have hl : c.lastBlock = min (start + c.duration) heightLimit - 1 := rfl
    have hlimit : start = heightLimit := by omega
    exact .inr ⟨hs.trans hlimit, hlimit ▸ hle, hlimit ▸ hne⟩
  | case3 start cycles hle c hne hlast ih => exact ih rfl
  | case4 start cycles hgt => exact .inl (round?_eq_none.2 (.inl (by omega)))

/-- The rounds end just if none is due where none gets any further. -/
theorem dom_iff_not_endless (hh : height ≤ heightLimit) :
    (eval (round? changes genesisHeight height) cycles).Dom ↔
      endless changes genesisHeight height cycles = false := by
  have hreach : Reaches (round? changes genesisHeight height) cycles _ := reaches_cover rfl
  rw [StateTransition.reaches_eval hreach, endless, Option.isSome_eq_false_iff,
    Option.isNone_iff_eq_none]
  constructor
  · intro hdom
    refine (round?_cover rfl hh).resolve_right fun ⟨hs, hlimit, hblocks⟩ => ?_
    exact not_dom_of_limit hs hlimit hblocks hdom
  · exact fun hend => Part.dom_iff_mem.2 ⟨_, StateTransition.mem_eval.2 ⟨.refl, hend⟩⟩

theorem cover_mem_eval (hend : endless changes genesisHeight height cycles = false) :
    cover changes height (nextStart genesisHeight cycles) cycles ∈
      eval (round? changes genesisHeight height) cycles := by
  rw [endless, Option.isSome_eq_false_iff, Option.isNone_iff_eq_none] at hend
  exact StateTransition.mem_eval.2 ⟨reaches_cover rfl, hend⟩

theorem not_endless_of_lt (hh : height < heightLimit) :
    endless changes genesisHeight height cycles = false := by
  rw [endless, Option.isSome_eq_false_iff, Option.isNone_iff_eq_none]
  exact (round?_cover rfl (Nat.le_of_lt hh)).resolve_right fun h => absurd h.2.1 (Nat.not_le.2 hh)

theorem dom_eval_iff (hg : genesisHeight ≤ heightLimit) (hh : height ≤ heightLimit) :
    (eval (round? changes genesisHeight height) cycles).Dom ↔ height < heightLimit ∨
      ∃ reached, Reaches (round? changes genesisHeight height) cycles reached ∧
        Exhausted changes genesisHeight reached := by
  constructor
  · intro hdom
    obtain ⟨hreach, hend⟩ := StateTransition.mem_eval.1 (Part.get_mem hdom)
    refine (round?_eq_none.1 hend).imp (fun hlow => ?_) fun hzero => ⟨_, hreach, hzero⟩
    exact Nat.lt_of_lt_of_le hlow (nextStart_le hg _)
  · rintro (hlow | ⟨reached, hreach, hzero⟩)
    · exact (dom_iff_not_endless hh).2 (not_endless_of_lt hlow)
    · exact Part.dom_iff_mem.2
        ⟨_, StateTransition.mem_eval.2 ⟨hreach, round?_eq_none.2 (.inr hzero)⟩⟩

end Cycle

namespace Ledger
variable {l l' : Ledger} {raw : RawBlock} {cycles : List Cycle}

def round? (l : Ledger) (raw : RawBlock) : List Cycle → Option (List Cycle) :=
  Cycle.round? l.paramChanges l.genesis.blockHeight.toNat raw.height.toNat

/-- The cycles that the rounds for a block end with, if they end. -/
def opening (l : Ledger) (raw : RawBlock) : Part (List Cycle) :=
  StateTransition.eval (l.round? raw) l.cycles

def Exhausted (l : Ledger) (cycles : List Cycle) : Prop :=
  Cycle.Exhausted l.paramChanges l.genesis.blockHeight.toNat cycles

theorem toNat_le_heightLimit (height : UInt32) : height.toNat ≤ heightLimit := by
  rw [Cycle.heightLimit_eq]
  exact Nat.le_of_lt_succ height.toNat_lt

theorem opening_dom_iff : (l.opening raw).Dom ↔ raw.height.toNat < heightLimit ∨
    ∃ reached, StateTransition.Reaches (l.round? raw) l.cycles reached ∧ l.Exhausted reached :=
  Cycle.dom_eval_iff (toNat_le_heightLimit _) (toNat_le_heightLimit _)

theorem opening_dom_iff_not_endless : (l.opening raw).Dom ↔ l.endless raw = false :=
  Cycle.dom_iff_not_endless (toNat_le_heightLimit _)

theorem cycles_opened_eq (hc : cycles ∈ l.opening raw) : (l.opened raw).cycles = cycles :=
  Part.mem_unique
    (Cycle.cover_mem_eval (opening_dom_iff_not_endless.1 (Part.dom_iff_mem.2 ⟨cycles, hc⟩))) hc

theorem not_endless_of_lt (hh : raw.height.toNat < heightLimit) : l.endless raw = false :=
  Cycle.not_endless_of_lt hh

theorem start_of_not_misfit (hm : l.misfit? raw = none) :
    (l.start raw = .ok (l.opened raw) ↔ (l.opening raw).Dom) ∧
      (l.start raw = .never ↔ ¬(l.opening raw).Dom) := by
  rw [start_eq_ok, start_eq_never, opening_dom_iff_not_endless, Bool.not_eq_false]
  simp [hm]

/-- Rounds that end have covered the height, or the next cycle would have no blocks. -/
theorem covers_of_opening (hb : l.Begun) (hm : l.misfit? raw = none)
    (hc : cycles ∈ l.opening raw) :
    (∃ c, cycles.head? = some c ∧ c.contains raw.height.toNat) ∨ l.Exhausted cycles := by
  obtain rfl := cycles_opened_eq hc
  refine (Cycle.round?_eq_none.1 (StateTransition.mem_eval.1 hc).2).imp_left fun hlow => ?_
  have hgenesis := UInt32.le_iff_toNat_le.1 (misfit?_eq_none.1 hm).1
  have hstarted := (hb.opened hm).started raw.opened rfl
  cases hcycles : (l.opened raw).cycles with
  | nil =>
    rw [hcycles, Cycle.nextStart] at hlow
    exact absurd hlow (Nat.not_lt.2 hgenesis)
  | cons c older =>
    rw [hcycles] at hlow hstarted
    exact ⟨c, rfl, Cycle.contains_iff.2 ⟨hstarted c List.mem_cons_self, Nat.le_of_lt_succ hlow⟩⟩

theorem Begun.step (h : l.Begun) {w : Write} (hl : Timing l w l') : l'.Begun := by
  cases hl with
  | opened hm => exact h.opened hm
  | removed hr =>
    obtain ⟨older, -, hchain, -, hcycles, -⟩ := removeTip_rest hr
    exact begun_of_cyclesBelow (hchain ▸ hcycles)
  | same hs => exact hs.begun h

theorem Begun.writeAll (h : l.Begun) (ws : List Write) : (l.writeAll ws).Begun := by
  induction ws generalizing l with
  | nil => exact h
  | cons w ws ih => exact ih (h.step (timing_write l w))

/-- Opening a block below the height limit ends after any run, with the height covered or the
cycles exhausted; opening one at the limit ends only if they are exhausted on the way. -/
theorem opening_ends_iff (g : Genesis) (ws : List Write) (raw : RawBlock) :
    let l := (Ledger.new g).writeAll ws
    l.misfit? raw = none →
      ((l.opening raw).Dom ↔ raw.height.toNat < heightLimit ∨
        ∃ reached, StateTransition.Reaches (l.round? raw) l.cycles reached ∧
          l.Exhausted reached) ∧
      (l.start raw = .never ↔ ¬(l.opening raw).Dom) ∧
      ∀ cycles ∈ l.opening raw, (∃ l', l.start raw = .ok l' ∧ l'.cycles = cycles) ∧
        ((∃ c, cycles.head? = some c ∧ c.contains raw.height.toNat) ∨ l.Exhausted cycles) := by
  intro l hm
  have hb : l.Begun := (Begun.new g).writeAll ws
  obtain ⟨hok, hnever⟩ := start_of_not_misfit hm
  refine ⟨opening_dom_iff, hnever, fun cycles hc => ⟨⟨_, ?_, cycles_opened_eq hc⟩,
    covers_of_opening hb hm hc⟩⟩
  exact hok.2 (Part.dom_iff_mem.2 ⟨cycles, hc⟩)

theorem not_exhausted_of_unchanged (hp : l.paramChanges = []) : ¬l.Exhausted cycles := by
  rw [Exhausted, Cycle.Exhausted, hp, Cycle.duration_startingAt_nil]
  exact Nat.succ_ne_zero _

theorem endless_of_limit (hp : l.paramChanges = []) (hh : raw.height.toNat = heightLimit) :
    l.endless raw := by
  rw [← Bool.not_eq_false, ← opening_dom_iff_not_endless, opening_dom_iff]
  rintro (hlow | ⟨reached, -, hzero⟩)
  · exact absurd hlow (Nat.not_lt.2 (Nat.le_of_eq hh.symm))
  · exact not_exhausted_of_unchanged hp hzero

theorem opening_ends_below_limit :
    let l := (Ledger.new Sample.genesis).writeAll [.start Sample.first]
    let raw := { Sample.second with height := 4294967294 }
    l.misfit? raw = none ∧ l.start raw = .ok (l.opened raw) ∧ (l.opening raw).Dom ∧
      ∃ c, (l.opened raw).cycles.head? = some c ∧ c.contains 4294967294 := by
  intro l raw
  have hm : l.misfit? raw = none := by decide +kernel
  obtain ⟨hends, -, hcovers⟩ := opening_ends_iff Sample.genesis [.start Sample.first] raw hm
  have hdom : (l.opening raw).Dom := hends.2 (.inl (by decide))
  obtain ⟨cycles, hc⟩ := Part.dom_iff_mem.1 hdom
  obtain ⟨⟨l', hs, rfl⟩, hcover⟩ := hcovers cycles hc
  obtain ⟨-, -, rfl⟩ := start_eq_ok.1 hs
  exact ⟨hm, hs, hdom, hcover.resolve_right (not_exhausted_of_unchanged (by decide +kernel))⟩

/-- A block at the height limit is never opened, though it follows the tip. -/
theorem opening_at_limit_never_ends :
    ¬∀ (g : Genesis) (ws : List Write) (raw : RawBlock),
      ((Ledger.new g).writeAll ws).misfit? raw = none →
        (((Ledger.new g).writeAll ws).opening raw).Dom := by
  intro h
  let l := (Ledger.new Sample.genesis).writeAll [.start Sample.first]
  let raw := { Sample.second with height := 4294967295 }
  have hm : l.misfit? raw = none := by decide +kernel
  have hdom : (l.opening raw).Dom := h Sample.genesis [.start Sample.first] raw hm
  rw [opening_dom_iff_not_endless, endless_of_limit (by decide +kernel) (by decide)] at hdom
  cases hdom

end Ledger
end DaoLedger
