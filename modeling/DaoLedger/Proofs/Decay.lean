import Mathlib.Algebra.Order.Round
import Mathlib.Data.Rat.Floor
import Mathlib.Tactic.FieldSimp
import Mathlib.Tactic.GCongr
import Mathlib.Tactic.Linarith
import DaoLedger.Governance.Merit
/-!
The law by which merit decays. Main statement: the weight of an amount is the amount times the share
of two years that is left, rounded to the nearest integer with halves up; in words of 128 bits no
step of the computation overflows; and the weight only falls with age and only grows with the amount
and the year. Arguments without a weight are refused with the condition that they break.
-/
namespace DaoLedger

/-! ### Rounding -/

theorem round_mono {a b : ℚ} (h : a ≤ b) : round a ≤ round b := by
  rw [round_eq, round_eq]
  exact Int.floor_le_floor (by linarith)

/-- To round a fraction, half of the divisor is added before the division. -/
theorem round_div (n : Int) {d : Nat} (hd : d ≠ 0) :
    round ((n : ℚ) / d) = (2 * n + d) / (2 * d) := by
  have hsum : (n : ℚ) / d + 1 / 2 = ((2 * n + d : Int) : ℚ) / ((2 * d : Nat) : ℚ) := by
    push_cast
    field_simp
  rw [round_eq, hsum, Rat.floor_intCast_div_natCast, Nat.cast_mul, Nat.cast_ofNat]

/-! ### The law -/

def decayed (amount issued current year : Int) : ℚ :=
  (amount : ℚ) * max 0 (1 - (current - issued : ℚ) / (2 * year : ℚ))

structure Weighable (amount issued current year : Int) : Prop where
  amount : 0 ≤ amount
  issued : issued ≤ current
  current : 0 ≤ current
  year : 0 < year

/-- The error names the condition that the arguments break, with their values. -/
def MeritError.Describes (amount issued current year : Int) : MeritError → Prop
  | .issuedLater issuanceHeight currentHeight =>
    current < issued ∧ issuanceHeight = issued ∧ currentHeight = current
  | .negativeAmount value => amount < 0 ∧ value = amount
  | .negativeHeight currentHeight => current < 0 ∧ currentHeight = current
  | .yearNotPositive blocksPerYear => year ≤ 0 ∧ blocksPerYear = year

section
variable {amount issued current year amount' issued' current' year' : Int}

theorem decayed_of_old (hy : 0 < year) (hage : 2 * year ≤ current - issued) :
    decayed amount issued current year = 0 := by
  have hyear : (0 : ℚ) < 2 * year := by exact_mod_cast Int.mul_pos two_pos hy
  have hover : (2 * year : ℚ) ≤ current - issued := by exact_mod_cast hage
  have hshare : (1 : ℚ) ≤ (current - issued) / (2 * year) := (one_le_div hyear).2 hover
  rw [decayed, max_eq_left (by linarith), mul_zero]

theorem decayed_of_young (hy : 0 < year) (hage : current - issued < 2 * year) :
    decayed amount issued current year =
      ((amount * (2 * year - (current - issued)) : Int) : ℚ) / ((2 * year).toNat : ℚ) := by
  have hyear : (0 : ℚ) < 2 * year := by exact_mod_cast Int.mul_pos two_pos hy
  have hunder : (current - issued : ℚ) ≤ 2 * year := by exact_mod_cast hage.le
  have hshare : ((current - issued) / (2 * year) : ℚ) ≤ 1 := (div_le_one hyear).2 hunder
  have hnat : ((2 * year).toNat : Int) = 2 * year := Int.toNat_of_nonneg (by omega)
  have hdivisor : ((2 * year).toNat : ℚ) = 2 * year := by exact_mod_cast hnat
  rw [decayed, max_eq_right (by linarith), hdivisor]
  push_cast
  field_simp

theorem decayed_mono (ha : 0 ≤ amount') (hy : 0 < year') (hage : 0 ≤ current - issued)
    (hamount : amount' ≤ amount) (holder : current - issued ≤ current' - issued')
    (hyear : year' ≤ year) :
    decayed amount' issued' current' year' ≤ decayed amount issued current year := by
  have hdivisor : (0 : ℚ) < 2 * year' := by exact_mod_cast Int.mul_pos two_pos hy
  have hless : (2 * year' : ℚ) ≤ 2 * year := by
    exact_mod_cast Int.mul_le_mul_of_nonneg_left hyear two_pos.le
  have hages : (current - issued : ℚ) ≤ current' - issued' := by exact_mod_cast holder
  have hstart : (0 : ℚ) ≤ current' - issued' := by exact_mod_cast hage.trans holder
  have hshare : ((current - issued) / (2 * year) : ℚ) ≤ (current' - issued') / (2 * year') :=
    div_le_div₀ hstart hages hdivisor hless
  have hcast : (0 : ℚ) ≤ amount := by exact_mod_cast ha.trans hamount
  rw [decayed, decayed]
  gcongr

theorem decayed_at_once : decayed amount current current year = amount := by
  rw [decayed, sub_self, zero_div, sub_zero, max_eq_right zero_le_one, mul_one]

theorem decayed_nonneg (ha : 0 ≤ amount) : 0 ≤ decayed amount issued current year :=
  mul_nonneg (by exact_mod_cast ha) (le_max_left ..)

theorem decayed_le (ha : 0 ≤ amount) (hi : issued ≤ current) (hy : 0 < year) :
    decayed amount issued current year ≤ amount := by
  have hstart : decayed amount current current year = amount := decayed_at_once
  rw [← hstart]
  exact decayed_mono ha hy (by omega) le_rfl (by omega) le_rfl

/-! ### Weights -/

theorem round_decayed (hy : 0 < year) :
    round (decayed amount issued current year) =
      if 2 * year ≤ current - issued then 0
      else (2 * amount * (2 * year - (current - issued)) + 2 * year) / (2 * (2 * year)) := by
  split
  · next hold => rw [decayed_of_old hy hold, round_zero]
  · next hyoung =>
    rw [decayed_of_young hy (by omega), round_div _ (by omega), Int.toNat_of_nonneg (by omega),
      mul_assoc]

theorem Weighable.round_bounds (h : Weighable amount issued current year) :
    0 ≤ round (decayed amount issued current year) ∧
      round (decayed amount issued current year) ≤ amount := by
  have hlow : round (0 : ℚ) ≤ round (decayed amount issued current year) :=
    round_mono (decayed_nonneg h.amount)
  have hhigh : round (decayed amount issued current year) ≤ round (amount : ℚ) :=
    round_mono (decayed_le h.amount h.issued h.year)
  rw [round_zero] at hlow
  rw [round_intCast] at hhigh
  exact ⟨hlow, hhigh⟩

theorem weightedMerit_eq (h : Weighable amount issued current year) :
    weightedMerit amount issued current year =
      .ok (round (decayed amount issued current year)) := by
  obtain ⟨hamount, hissued, hcurrent, hyear⟩ := h
  rw [weightedMerit, if_neg (by omega), if_neg (by omega), if_neg (by omega), if_neg (by omega),
    round_decayed hyear]
  exact (apply_ite Except.ok ..).symm

theorem weightedMerit_refuses (h : ¬Weighable amount issued current year) :
    ∃ e, weightedMerit amount issued current year = .error e ∧
      e.Describes amount issued current year := by
  unfold weightedMerit
  by_cases hissued : current < issued
  · exact ⟨.issuedLater .., if_pos hissued, hissued, rfl, rfl⟩
  by_cases hamount : amount < 0
  · exact ⟨.negativeAmount _, by rw [if_neg hissued, if_pos hamount], hamount, rfl⟩
  by_cases hcurrent : current < 0
  · exact ⟨.negativeHeight _, by rw [if_neg hissued, if_neg hamount, if_pos hcurrent],
      hcurrent, rfl⟩
  have hyear : year ≤ 0 := Int.not_lt.1 fun hyear => h ⟨by omega, by omega, by omega, hyear⟩
  exact ⟨.yearNotPositive _,
    by rw [if_neg hissued, if_neg hamount, if_neg hcurrent, if_pos hyear], hyear, rfl⟩

theorem weightedMerit_eq_ok {weight : Int} :
    weightedMerit amount issued current year = .ok weight ↔
      Weighable amount issued current year ∧
        weight = round (decayed amount issued current year) := by
  by_cases h : Weighable amount issued current year
  · rw [weightedMerit_eq h, Except.ok.injEq, eq_comm]
    exact (and_iff_right h).symm
  · obtain ⟨e, he, -⟩ := weightedMerit_refuses h
    simp only [he, reduceCtorEq, h, false_and]

theorem weightedMerit_bounds {weight : Int}
    (h : weightedMerit amount issued current year = .ok weight) :
    0 ≤ weight ∧ weight ≤ amount := by
  obtain ⟨hweighable, rfl⟩ := weightedMerit_eq_ok.1 h
  exact hweighable.round_bounds

theorem weightedMerit_mono {weight weight' : Int}
    (h : weightedMerit amount issued current year = .ok weight)
    (h' : weightedMerit amount' issued' current' year' = .ok weight') (ha : amount' ≤ amount)
    (hage : current - issued ≤ current' - issued') (hy : year' ≤ year) : weight' ≤ weight := by
  obtain ⟨hw, rfl⟩ := weightedMerit_eq_ok.1 h
  obtain ⟨hw', rfl⟩ := weightedMerit_eq_ok.1 h'
  have hstart := hw.issued
  exact round_mono (decayed_mono hw'.amount hw'.year (by omega) ha hage hy)

/-! ### Words -/

/-- A signed word of so many bits with the value `n`, if there is one. -/
def word? (bits : Nat) (n : Int) : Option Int :=
  if -2 ^ (bits - 1) ≤ n ∧ n < 2 ^ (bits - 1) then some n else none

/-- The weight as 128-bit words give it, each of them checked; the weight has 64 bits. -/
def wordMerit? (amount issued current year : Int) : Option Int := do
  let age ← word? 128 (current - issued)
  let maxAge ← word? 128 (2 * year)
  if maxAge ≤ age then return 0
  let left ← word? 128 (maxAge - age)
  let doubled ← word? 128 (2 * amount)
  let product ← word? 128 (doubled * left)
  let raised ← word? 128 (product + maxAge)
  let divisor ← word? 128 (2 * maxAge)
  word? 64 (raised.tdiv divisor)

theorem word?_of_fits {bits : Nat} {n : Int} (hlow : -2 ^ (bits - 1) ≤ n)
    (hhigh : n < 2 ^ (bits - 1)) : word? bits n = some n :=
  if_pos ⟨hlow, hhigh⟩

theorem wordMerit?_eq (h : Weighable amount issued current year) (ha : amount < 2 ^ 63)
    (hi : -2 ^ 63 ≤ issued) (hc : current < 2 ^ 32) (hy : year < 2 ^ 32) :
    wordMerit? amount issued current year = some (round (decayed amount issued current year)) := by
  have hweight := h.round_bounds
  obtain ⟨hamount, hissued, hcurrent, hyear⟩ := h
  rw [round_decayed hyear] at hweight ⊢
  unfold wordMerit?
  simp (disch := omega) only [word?_of_fits, Option.bind_eq_bind, Option.bind_some]
  by_cases hold : 2 * year ≤ current - issued
  · rw [if_pos hold, if_pos hold]
    rfl
  rw [if_neg hold] at hweight
  rw [if_neg hold, if_neg hold]
  obtain ⟨left, hleft⟩ : ∃ left, 2 * year - (current - issued) = left := ⟨_, rfl⟩
  rw [hleft] at hweight ⊢
  -- The product has at most 64 + 33 bits.
  have hlow : 0 ≤ 2 * amount * left := Int.mul_nonneg (by omega) (by omega)
  have hhigh : 2 * amount * left ≤ 2 ^ 64 * 2 ^ 33 :=
    Int.mul_le_mul (by omega) (by omega) (by omega) (by omega)
  simp (disch := omega) only [word?_of_fits, Option.bind_some]
  rw [Int.tdiv_eq_ediv_of_nonneg (by omega)]
  exact word?_of_fits (by omega) (by omega)

end

/-- Merit decays by the law, exactly rounded, and other arguments have no weight. -/
theorem weightedMerit_decays (amount issued current year : Int) :
    (Weighable amount issued current year → ∃ weight,
      weightedMerit amount issued current year = .ok weight ∧
        weight = round (decayed amount issued current year) ∧
        (amount < 2 ^ 63 → -2 ^ 63 ≤ issued → current < 2 ^ 32 → year < 2 ^ 32 →
          wordMerit? amount issued current year = some weight) ∧
        0 ≤ weight ∧ weight ≤ amount ∧ (issued = current → weight = amount) ∧
        (2 * year ≤ current - issued → weight = 0) ∧
        ∀ amount' issued' current' year' weight',
          weightedMerit amount' issued' current' year' = .ok weight' → amount' ≤ amount →
            current - issued ≤ current' - issued' → year' ≤ year → weight' ≤ weight) ∧
      (¬Weighable amount issued current year → ∃ e,
        weightedMerit amount issued current year = .error e ∧
          e.Describes amount issued current year) := by
  refine ⟨fun h => ?_, weightedMerit_refuses⟩
  have hok := weightedMerit_eq h
  obtain ⟨hlow, hhigh⟩ := h.round_bounds
  refine ⟨_, hok, rfl, wordMerit?_eq h, hlow, hhigh, ?_, ?_, ?_⟩
  · rintro rfl
    rw [decayed_at_once, round_intCast]
  · intro hold
    rw [decayed_of_old h.year hold, round_zero]
  · intro amount' issued' current' year' weight' hok' ha hage hy
    exact weightedMerit_mono hok hok' ha hage hy

theorem weightedMerit_of_largest :
    Weighable 9223372036854775807 0 4294967295 4294967295 ∧
      ¬Weighable 9223372036854775807 1 0 4294967295 ∧
      weightedMerit 9223372036854775807 0 4294967295 4294967295 = .ok 4611686018427387904 ∧
      wordMerit? 9223372036854775807 0 4294967295 4294967295 = some 4611686018427387904 ∧
      ∃ e, weightedMerit 9223372036854775807 1 0 4294967295 = .error e ∧
        e.Describes 9223372036854775807 1 0 4294967295 := by
  have h : Weighable 9223372036854775807 0 4294967295 4294967295 := by constructor <;> decide
  have h' : ¬Weighable 9223372036854775807 1 0 4294967295 := fun h' => absurd h'.issued (by decide)
  have hok : weightedMerit 9223372036854775807 0 4294967295 4294967295 =
      .ok 4611686018427387904 := by
    decide +kernel
  obtain ⟨weight, hw, -, hword, -⟩ := (weightedMerit_decays ..).1 h
  obtain rfl : weight = 4611686018427387904 := Except.ok.inj (hw.symm.trans hok)
  refine ⟨h, h', hok, hword ?_ ?_ ?_ ?_, (weightedMerit_decays ..).2 h'⟩ <;> decide

end DaoLedger
