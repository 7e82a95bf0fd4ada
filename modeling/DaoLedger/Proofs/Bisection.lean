import DaoLedger.Chain.Id
/-!
Searching by halving. Main statement: in a list where what lies below comes first and what lies
above comes last, halving finds an item if there is one, and otherwise the place between the two.
-/
namespace DaoLedger.Bisection

variable {α : Type} {probe : α → Ordering} {xs : List α}

/-- Halves the stretch of `size` positions from `base` on until one is left. The answer does not
lie above, unless it is the first. -/
def bisect (above : Nat → Bool) (base size : Nat) : Nat :=
  if size ≤ 1 then base
  else
    let middle := base + size / 2
    if above middle then bisect above base (size - size / 2)
    else bisect above middle (size - size / 2)
termination_by size

def probeAt (probe : α → Ordering) (xs : List α) (i : Nat) : Ordering :=
  (xs[i]?.map probe).getD .gt

/-- The position of an item that is sought, or else the one where it would be put in. -/
def locate (probe : α → Ordering) (xs : List α) : Except Nat Nat :=
  let i := bisect (probeAt probe xs · = .gt) 0 xs.length
  match probeAt probe xs i with
  | .lt => .error (i + 1)
  | .eq => .ok i
  | .gt => .error i

def item? (probe : α → Ordering) (xs : List α) : Option α :=
  match locate probe xs with
  | .ok i => xs[i]?
  | .error _ => none

def dropBelow (below : α → Bool) (xs : List α) : List α :=
  match locate (fun x => if below x then .lt else .gt) xs with
  | .ok i => xs.drop i
  | .error i => xs.drop i

/-! ### What halving finds -/

theorem bisect_spec {above : Nat → Bool} {base size : Nat}
    (hmono : ∀ i j, i ≤ j → above i → above j) (hend : above (base + size)) :
    above (bisect above base size + 1) ∧
      (bisect above base size = base ∨ ¬above (bisect above base size)) := by
  fun_induction bisect above base size with
  | case1 base size hle => exact ⟨hmono _ _ (by omega) hend, .inl rfl⟩
  | case2 base size hlt middle hm ih => exact ih (hmono _ _ (by omega) hm)
  | case3 base size hlt middle hm ih =>
    have hsum : middle + (size - size / 2) = base + size := by omega
    obtain ⟨hnext, hlast⟩ := ih (hsum ▸ hend)
    refine ⟨hnext, .inr (hlast.elim (fun heq => ?_) id)⟩
    rwa [heq]

def Split (probe : α → Ordering) (xs : List α) : Prop :=
  xs.Pairwise fun a b => (probe a = .gt → probe b = .gt) ∧ (probe b = .lt → probe a = .lt)

inductive Located (probe : α → Ordering) (xs : List α) : Except Nat Nat → Prop where
  | found {i : Nat} {x : α} (hi : xs[i]? = some x) (hx : probe x = .eq) : Located probe xs (.ok i)
  | absent {i : Nat} (hlt : ∀ x ∈ xs.take i, probe x = .lt) (hgt : ∀ x ∈ xs.drop i, probe x = .gt) :
    Located probe xs (.error i)

theorem probeAt_eq_iff {o : Ordering} (ho : o ≠ .gt) {i : Nat} :
    probeAt probe xs i = o ↔ ∃ x, xs[i]? = some x ∧ probe x = o := by
  rw [probeAt]
  cases xs[i]? with
  | none => simp [ho.symm]
  | some x => simp

theorem Split.gt_mono (h : Split probe xs) {i j : Nat} (hij : i ≤ j)
    (hi : probeAt probe xs i = .gt) : probeAt probe xs j = .gt := by
  rcases Nat.lt_or_ge j xs.length with hj | hj
  · have hxi : xs[i]? = some xs[i] := List.getElem?_eq_getElem (by omega)
    have hxj : xs[j]? = some xs[j] := List.getElem?_eq_getElem hj
    simp only [probeAt, hxi, hxj, Option.map_some, Option.getD_some] at hi ⊢
    rcases Nat.eq_or_lt_of_le hij with rfl | hlt
    · exact hi
    · exact (List.pairwise_iff_getElem.1 h i j (by omega) hj hlt).1 hi
  · simp [probeAt, List.getElem?_eq_none hj]

theorem Split.lt_mono (h : Split probe xs) {i j : Nat} (hij : i ≤ j)
    (hj : probeAt probe xs j = .lt) : probeAt probe xs i = .lt := by
  obtain ⟨y, hy, hlt⟩ := (probeAt_eq_iff (by decide)).1 hj
  obtain ⟨hlen, rfl⟩ := List.getElem?_eq_some_iff.1 hy
  refine (probeAt_eq_iff (by decide)).2 ⟨xs[i], List.getElem?_eq_getElem (by omega), ?_⟩
  rcases Nat.eq_or_lt_of_le hij with rfl | hij
  · exact hlt
  · exact (List.pairwise_iff_getElem.1 h i j (by omega) hlen hij).2 hlt

theorem forall_mem_take {o : Ordering} {n : Nat} (h : ∀ i < n, probeAt probe xs i = o) :
    ∀ x ∈ xs.take n, probe x = o := by
  intro x hx
  obtain ⟨i, hi, rfl⟩ := List.mem_take_iff_getElem.1 hx
  have hat := h i (by omega)
  rwa [probeAt, List.getElem?_eq_getElem (by omega)] at hat

theorem forall_mem_drop {o : Ordering} {n : Nat} (h : ∀ i, n ≤ i → probeAt probe xs i = o) :
    ∀ x ∈ xs.drop n, probe x = o := by
  intro x hx
  obtain ⟨i, hi, rfl⟩ := List.mem_drop_iff_getElem.1 hx
  have hat := h (n + i) (by omega)
  rwa [probeAt, List.getElem?_eq_getElem (by omega)] at hat

theorem located (h : Split probe xs) : Located probe xs (locate probe xs) := by
  have hmono (i j : Nat) (hij : i ≤ j) (hi : decide (probeAt probe xs i = .gt)) :
      decide (probeAt probe xs j = .gt) :=
    decide_eq_true (h.gt_mono hij (of_decide_eq_true hi))
  have hend : decide (probeAt probe xs (0 + xs.length) = .gt) := by simp [probeAt]
  obtain ⟨hnext, hlast⟩ := bisect_spec hmono hend
  unfold locate
  generalize bisect (probeAt probe xs · = .gt) 0 xs.length = i at hnext hlast
  cases ho : probeAt probe xs i with
  | lt =>
    simp only [ho]
    exact .absent (forall_mem_take fun j hj => h.lt_mono (Nat.le_of_lt_succ hj) ho)
      (forall_mem_drop fun j hj => h.gt_mono hj (of_decide_eq_true hnext))
  | eq =>
    simp only [ho]
    obtain ⟨x, hi, hx⟩ := (probeAt_eq_iff (by decide)).1 ho
    exact .found hi hx
  | gt =>
    simp only [ho]
    have hzero : i = 0 := hlast.elim id fun hn => absurd (decide_eq_true ho) hn
    exact .absent (forall_mem_take fun j hj => by omega)
      (forall_mem_drop fun j hj => h.gt_mono hj ho)

/-! ### Items and tails -/

theorem item?_cases (h : Split probe xs) :
    (∃ x ∈ xs, probe x = .eq ∧ item? probe xs = some x) ∨
      (∀ x ∈ xs, probe x ≠ .eq) ∧ item? probe xs = none := by
  have hl := located h
  unfold item?
  generalize locate probe xs = r at hl
  cases hl with
  | @found i x hi hx => exact .inl ⟨x, List.mem_of_getElem? hi, hx, hi⟩
  | @absent i hlt hgt =>
    refine .inr ⟨fun x hx => ?_, rfl⟩
    rw [← List.take_append_drop i xs] at hx
    rcases List.mem_append.1 hx with hx | hx
    · simp [hlt x hx]
    · simp [hgt x hx]

theorem dropBelow_eq_filter {below : α → Bool} (h : xs.Pairwise fun a b => below b → below a) :
    dropBelow below xs = xs.filter (!below ·) := by
  have hl : Located (fun x => if below x then .lt else .gt) xs _ :=
    located (h.imp fun {a b} hab => by
      cases ha : below a <;> cases hb : below b <;> simp_all)
  unfold dropBelow
  generalize locate (fun x => if below x then .lt else .gt) xs = r at hl
  cases hl with
  | @found i x hi hx =>
    cases hb : below x <;> simp [hb] at hx
  | @absent i hlt hgt =>
    have htake : (xs.take i).filter (!below ·) = [] := by simpa using hlt
    have hdrop : (xs.drop i).filter (!below ·) = xs.drop i := by simpa using hgt
    calc xs.drop i = (xs.take i).filter (!below ·) ++ (xs.drop i).filter (!below ·) := by
          rw [htake, hdrop, List.nil_append]
      _ = xs.filter (!below ·) := by rw [← List.filter_append, List.take_append_drop]

end DaoLedger.Bisection
