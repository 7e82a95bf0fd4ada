import DaoLedger.Proofs.Tiling
/-!
How the phases lie in a cycle. Main statement: below the height limit the phase of a height is the
one whose first and last block enclose it, no two phases enclose one height, and a cycle with blocks
covers just the heights that have a phase.
-/
namespace DaoLedger.Cycle
variable {phase : Phase} {height start : Nat} {phases : List (Phase × Nat)}

/-! ### Stretches without a limit -/

/-- The height lies in a stretch of the phase, the stretches following one another from `start`. -/
def LiesIn (phase : Phase) (height : Nat) : Nat → List (Phase × Nat) → Prop
  | _, [] => False
  | start, (p, length) :: phases =>
    p = phase ∧ start ≤ height ∧ height < start + length ∨
      LiesIn phase height (start + length) phases

theorem LiesIn.start_le (h : LiesIn phase height start phases) : start ≤ height := by
  induction phases generalizing start with
  | nil => exact h.elim
  | cons stretch phases ih =>
    obtain ⟨-, hle, -⟩ | hlater := h
    · exact hle
    · exact Nat.le_trans (Nat.le_add_right start stretch.2) (ih hlater)

theorem LiesIn.mem (h : LiesIn phase height start phases) : phase ∈ phases.map (·.1) := by
  induction phases generalizing start with
  | nil => exact h.elim
  | cons stretch phases ih =>
    obtain ⟨rfl, -⟩ | hlater := h
    · exact List.mem_cons_self
    · exact List.mem_cons_of_mem _ (ih hlater)

theorem exists_liesIn_iff : (∃ phase, LiesIn phase height start phases) ↔
    start ≤ height ∧ height < start + total (phases.map (·.2)) := by
  induction phases generalizing start with
  | nil =>
    simp only [LiesIn, exists_false, List.map_nil, total, false_iff]
    omega
  | cons stretch phases ih =>
    simp only [LiesIn, exists_or, ih, List.map_cons, total]
    constructor
    · rintro (⟨-, -, hin⟩ | hlater) <;> omega
    · intro hin
      by_cases hfirst : height < start + stretch.2
      · exact .inl ⟨stretch.1, rfl, hin.1, hfirst⟩
      · exact .inr (by omega)

/-! ### Below the limit -/

theorem liesIn_heightSum (hh : height < heightLimit) (length : Nat) :
    LiesIn phase height (heightSum start length) phases ↔
      LiesIn phase height (start + length) phases := by
  by_cases hs : start + length ≤ heightLimit
  · rw [heightSum, Nat.min_eq_left hs]
  · have hcut : heightSum start length = heightLimit := Nat.min_eq_right (Nat.le_of_not_le hs)
    refine iff_of_false (fun h => ?_) (fun h => ?_)
    · exact absurd (hcut ▸ h.start_le) (Nat.not_le.2 hh)
    · have hle := h.start_le
      omega

theorem phaseFrom?_eq_some_iff (hh : height < heightLimit) (hs : start ≤ height) :
    phaseFrom? height start phases = some phase ↔ LiesIn phase height start phases := by
  induction phases generalizing start with
  | nil => simp [phaseFrom?, LiesIn]
  | cons stretch phases ih =>
    have hend : height < heightSum start stretch.2 ↔ height < start + stretch.2 := by
      rw [heightSum]
      omega
    rw [phaseFrom?, LiesIn]
    by_cases hin : height < heightSum start stretch.2
    · have hlater : ¬LiesIn phase height (start + stretch.2) phases := fun h =>
        absurd (hend.1 hin) (Nat.not_lt.2 h.start_le)
      simp [if_pos hin, hs, hend.1 hin, hlater]
    · rw [if_neg hin, ih (Nat.le_of_not_lt hin), liesIn_heightSum hh]
      simp [mt hend.2 hin]

/-- The blocks of a phase that comes up once. -/
theorem spanFrom?_iff (hh : height < heightLimit) (hn : (phases.map (·.1)).Nodup) :
    (∃ first length, spanFrom? phase start phases = some (first, length) ∧ length ≠ 0 ∧
        first ≤ height ∧ height ≤ heightSum first (length - 1)) ↔
      LiesIn phase height start phases := by
  induction phases generalizing start with
  | nil => simp [spanFrom?, LiesIn]
  | cons stretch phases ih =>
    obtain ⟨p, length⟩ := stretch
    obtain ⟨hfresh, hn⟩ := List.nodup_cons.1 hn
    rw [spanFrom?, LiesIn]
    by_cases hp : p = phase
    · have hlater : ¬LiesIn phase height (start + length) phases := fun h => hfresh (hp ▸ h.mem)
      have hlast (hle : start ≤ height) :
          length ≠ 0 ∧ height ≤ heightSum start (length - 1) ↔ height < start + length := by
        rw [heightSum]
        omega
      rw [if_pos hp]
      constructor
      · rintro ⟨_, _, ⟨⟩, hne, hle, hin⟩
        exact .inl ⟨hp, hle, (hlast hle).1 ⟨hne, hin⟩⟩
      · intro h
        obtain ⟨-, hle, hin⟩ := h.resolve_right hlater
        obtain ⟨hne, hin⟩ := (hlast hle).2 hin
        exact ⟨start, length, rfl, hne, hle, hin⟩
    · rw [if_neg hp, ih hn, liesIn_heightSum hh]
      simp [hp]

theorem foldl_heightSum (hs : start ≤ heightLimit) :
    phases.foldl (fun start p => heightSum start p.2) start =
      heightSum start (total (phases.map (·.2))) := by
  induction phases generalizing start with
  | nil => exact (Nat.min_eq_left hs).symm
  | cons stretch phases ih =>
    have hs' : heightSum start stretch.2 ≤ heightLimit := Nat.min_le_right ..
    rw [List.foldl_cons, ih hs', List.map_cons, total]
    simp only [heightSum]
    omega

theorem contains_iff_liesIn {c : Cycle} (hh : height < heightLimit) (hd : 0 < c.duration) :
    c.contains height ↔ ∃ phase, LiesIn phase height c.firstBlock c.phases := by
  have hduration : c.duration = heightSum 0 (total (c.phases.map (·.2))) :=
    foldl_heightSum (Nat.zero_le _)
  rw [contains_iff, exists_liesIn_iff, lastBlock]
  simp only [heightSum] at hduration ⊢
  omega

/-- The height is enclosed by the first and the last block of the phase. -/
def Encloses (c : Cycle) (phase : Phase) (height : Nat) : Prop :=
  ∃ first last, c.firstBlockOf? phase = some first ∧ c.lastBlockOf? phase = some last ∧
    first ≤ height ∧ height ≤ last

theorem encloses_iff {c : Cycle} (hh : height < heightLimit) (hn : (c.phases.map (·.1)).Nodup) :
    c.Encloses phase height ↔ LiesIn phase height c.firstBlock c.phases := by
  rw [← spanFrom?_iff hh hn, Encloses, firstBlockOf?, lastBlockOf?]
  cases spanFrom? phase c.firstBlock c.phases with
  | none => simp
  | some span =>
    obtain ⟨first, length⟩ := span
    by_cases hz : length = 0 <;> simp [hz]

theorem phaseAt?_eq_some_iff {c : Cycle} (hh : height < heightLimit) :
    c.phaseAt? height = some phase ↔ LiesIn phase height c.firstBlock c.phases := by
  rw [phaseAt?]
  by_cases hs : height < c.firstBlock
  · rw [if_pos hs]
    exact iff_of_false nofun fun h => absurd hs (Nat.not_lt.2 h.start_le)
  · rw [if_neg hs, phaseFrom?_eq_some_iff hh (Nat.le_of_not_lt hs)]

/-- The phase of a height, the blocks of a phase and the blocks of the cycle agree. -/
theorem phases_agree (c : Cycle) (hn : (c.phases.map (·.1)).Nodup) (height : Nat)
    (hh : height < heightLimit) :
    (∀ phase, c.phaseAt? height = some phase ↔ c.Encloses phase height) ∧
      (∀ phase other, c.Encloses phase height → c.Encloses other height → phase = other) ∧
        (0 < c.duration → (c.contains height ↔ (c.phaseAt? height).isSome)) := by
  have hphase (phase : Phase) : c.phaseAt? height = some phase ↔ c.Encloses phase height := by
    rw [phaseAt?_eq_some_iff hh, encloses_iff hh hn]
  refine ⟨hphase, fun phase other hp ho => ?_, fun hd => ?_⟩
  · exact Option.some.inj (((hphase phase).2 hp).symm.trans ((hphase other).2 ho))
  · simp only [contains_iff_liesIn hh hd, Option.isSome_iff_exists, phaseAt?_eq_some_iff hh]

def sampleCut : Cycle :=
  ⟨4294967290, [(.proposal, 3), (.break1, 0), (.blindVote, 4294967295), (.result, 2)]⟩

theorem phases_agree_sampleCut :
    (sampleCut.phases.map (·.1)).Nodup ∧ 4294967294 < heightLimit ∧
      sampleCut.phaseAt? 4294967294 = some .blindVote ∧
      sampleCut.Encloses .blindVote 4294967294 ∧ ¬sampleCut.Encloses .result 4294967294 ∧
      sampleCut.contains 4294967294 := by
  have hn : (sampleCut.phases.map (·.1)).Nodup := by decide
  have hh : 4294967294 < heightLimit := by decide
  obtain ⟨hphase, hunique, hcontains⟩ := phases_agree sampleCut hn 4294967294 hh
  have hat : sampleCut.phaseAt? 4294967294 = some .blindVote := by decide
  have hblind := (hphase .blindVote).1 hat
  refine ⟨hn, hh, hat, hblind, fun hresult => ?_, (hcontains (by decide)).2 (by rw [hat]; rfl)⟩
  cases hunique _ _ hblind hresult

example : sampleCut.phaseAt? heightLimit = none ∧
    sampleCut.lastBlockOf? .blindVote = some heightLimit := by decide

end DaoLedger.Cycle
