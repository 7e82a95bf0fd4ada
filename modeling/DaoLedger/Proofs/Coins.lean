import DaoLedger.Ledger.Coins
/-!
What the operations on outputs do to each single key. Main statement: taking back the inputs of a
transaction restores the outputs as they were before its inputs spent them.
-/
namespace DaoLedger.Coins
variable {coins : Coins} {height : UInt32} {id : TxId} {key : OutputKey}

def spender? (inputs : List Input) (key : OutputKey) : Option Nat :=
  inputs.findIdx? (·.source = key)

theorem spender?_cons (input : Input) (inputs : List Input) (key : OutputKey) :
    spender? (input :: inputs) key =
      if input.source = key then some 0 else (spender? inputs key).map (· + 1) := by
  simp [spender?, List.findIdx?_cons]

theorem spender?_isSome {inputs : List Input} {key : OutputKey} :
    (spender? inputs key).isSome ↔ key ∈ inputs.map Input.source := by
  simp [spender?, List.findIdx?_isSome]

/-! ### Spending -/

theorem types_spend (info : SpentInfo) : (coins.spend key info).types = coins.types := by
  unfold spend
  split <;> rfl

theorem types_spendAll (inputs : List Input) (i : Nat) :
    (coins.spendAll height id i inputs).types = coins.types := by
  induction inputs generalizing coins i with
  | nil => rfl
  | cons input inputs ih => rw [spendAll, ih, types_spend]

theorem unspent_spend (info : SpentInfo) (k : OutputKey) :
    (coins.spend key info).unspent[k]? = if key = k then none else coins.unspent[k]? := by
  unfold spend
  split <;> grind

theorem unspent_spendAll (inputs : List Input) (i : Nat) (k : OutputKey) :
    (coins.spendAll height id i inputs).unspent[k]? =
      if (spender? inputs k).isSome then none else coins.unspent[k]? := by
  induction inputs generalizing coins i with
  | nil => rfl
  | cons input inputs ih =>
    rw [spendAll, ih, unspent_spend, spender?_cons]
    by_cases h : input.source = k <;> simp [h]

theorem spent_spend (info : SpentInfo) (k : OutputKey) :
    (coins.spend key info).spent[k]? =
      if key = k ∧ key ∈ coins.unspent then some info else coins.spent[k]? := by
  unfold spend
  split <;> grind

theorem spent_spendAll (inputs : List Input) (i : Nat) (k : OutputKey) :
    (coins.spendAll height id i inputs).spent[k]? =
      if k ∈ coins.unspent then
        ((spender? inputs k).map fun j => SpentInfo.mk height id (i + j)).or coins.spent[k]?
      else coins.spent[k]? := by
  induction inputs generalizing coins i with
  | nil => simp [spendAll, spender?]
  | cons input inputs ih =>
    have hu : (coins.spend input.source ⟨height, id, i⟩).unspent[k]? =
        if input.source = k then none else coins.unspent[k]? := unspent_spend _ k
    rw [spendAll, ih, spent_spend, spender?_cons]
    by_cases h : input.source = k
    · subst h
      have hn : input.source ∉ (coins.spend input.source ⟨height, id, i⟩).unspent := by simp_all
      simp [hn]
    · have hm : k ∈ (coins.spend input.source ⟨height, id, i⟩).unspent ↔ k ∈ coins.unspent := by
        rw [← Std.ExtTreeMap.isSome_getElem?_iff_mem, hu, if_neg h,
          Std.ExtTreeMap.isSome_getElem?_iff_mem]
      simp [hm, h, Function.comp_def, Nat.add_assoc, Nat.add_comm 1]

/-! ### Creating and forgetting -/

theorem getElem?_insertAll {ν : Type} (f : Output → ν) {outputs : List Output}
    (hn : (outputs.map Output.key).Nodup) (m : Map OutputKey ν) (k : OutputKey) :
    (outputs.foldl (fun m o => m.insert o.key (f o)) m)[k]? =
      ((outputs.find? (·.key = k)).map f).or m[k]? := by
  induction outputs generalizing m with
  | nil => rfl
  | cons o outputs ih =>
    rw [List.map_cons, List.nodup_cons] at hn
    rw [List.foldl_cons, ih hn.2, List.find?_cons]
    by_cases hk : o.key = k
    · have hf : outputs.find? (·.key = k) = none := by
        rw [List.find?_eq_none]
        intro p hp he
        exact hn.1 (List.mem_map.2 ⟨p, hp, by simp_all⟩)
      simp [hk, hf]
    · simp [hk, Std.ExtTreeMap.getElem?_insert]

theorem getElem?_eraseAll {ν : Type} (outputs : List Output) (m : Map OutputKey ν)
    (k : OutputKey) :
    (outputs.foldl (fun m o => m.erase o.key) m)[k]? =
      if k ∈ outputs.map Output.key then none else m[k]? := by
  induction outputs generalizing m with
  | nil => simp
  | cons o outputs ih =>
    simp only [List.foldl_cons, ih, List.map_cons, List.mem_cons]
    grind

theorem createAll_eq (outputs : List Output) :
    coins.createAll outputs =
      { coins with
        unspent := outputs.foldl (fun m o => m.insert o.key o) coins.unspent
        types := outputs.foldl (fun m o => m.insert o.key o.type) coins.types } := by
  induction outputs generalizing coins with
  | nil => rfl
  | cons o outputs ih => exact @ih (coins.create o)

theorem forgetAll_eq (outputs : List Output) :
    coins.forgetAll outputs =
      { coins with
        unspent := outputs.foldl (fun m o => m.erase o.key) coins.unspent
        types := outputs.foldl (fun m o => m.erase o.key) coins.types } := by
  induction outputs generalizing coins with
  | nil => rfl
  | cons o outputs ih => exact @ih (coins.forget o)

theorem spent_createAll (outputs : List Output) :
    (coins.createAll outputs).spent = coins.spent := by
  rw [createAll_eq]

theorem unspent_createAll {outputs : List Output} (hn : (outputs.map Output.key).Nodup)
    (k : OutputKey) :
    (coins.createAll outputs).unspent[k]? =
      (outputs.find? (·.key = k)).or coins.unspent[k]? := by
  rw [createAll_eq]
  simpa using getElem?_insertAll id hn coins.unspent k

theorem types_createAll {outputs : List Output} (hn : (outputs.map Output.key).Nodup)
    (k : OutputKey) :
    (coins.createAll outputs).types[k]? =
      ((outputs.find? (·.key = k)).map (·.type)).or coins.types[k]? := by
  rw [createAll_eq]
  exact getElem?_insertAll (·.type) hn coins.types k

theorem ext {a b : Coins} (hu : ∀ k : OutputKey, a.unspent[k]? = b.unspent[k]?)
    (hs : ∀ k : OutputKey, a.spent[k]? = b.spent[k]?)
    (ht : ∀ k : OutputKey, a.types[k]? = b.types[k]?) : a = b := by
  obtain ⟨unspent, spent, types⟩ := a
  obtain ⟨unspent', spent', types'⟩ := b
  simp only [mk.injEq]
  exact ⟨Std.ExtTreeMap.ext_getElem? hu, Std.ExtTreeMap.ext_getElem? hs,
    Std.ExtTreeMap.ext_getElem? ht⟩

theorem forgetAll_createAll {outputs : List Output} (hn : (outputs.map Output.key).Nodup)
    (hu : ∀ o ∈ outputs, o.key ∉ coins.unspent) (ht : ∀ o ∈ outputs, o.key ∉ coins.types) :
    (coins.createAll outputs).forgetAll outputs = coins := by
  have hfind (k : OutputKey) (hk : k ∉ outputs.map Output.key) :
      outputs.find? (·.key = k) = none := by
    rw [List.find?_eq_none]
    intro o ho he
    exact hk (List.mem_map.2 ⟨o, ho, by simpa using he⟩)
  apply ext
  · intro k
    rw [forgetAll_eq, getElem?_eraseAll]
    split
    · next hk =>
      obtain ⟨o, ho, rfl⟩ := List.mem_map.1 hk
      exact (Std.ExtTreeMap.getElem?_eq_none (hu o ho)).symm
    · next hk => rw [unspent_createAll hn, hfind k hk, Option.none_or]
  · intro k
    rw [forgetAll_eq, spent_createAll]
  · intro k
    rw [forgetAll_eq, getElem?_eraseAll]
    split
    · next hk =>
      obtain ⟨o, ho, rfl⟩ := List.mem_map.1 hk
      exact (Std.ExtTreeMap.getElem?_eq_none (ht o ho)).symm
    · next hk => rw [types_createAll hn, hfind k hk, Option.map_none, Option.none_or]

/-! ### Taking back -/

/-- Whether a key was spent by one of the inputs, which stand from position `i` on. -/
def SpentFrom (coins : Coins) (id : TxId) (i : Nat) (inputs : List Input) (k : OutputKey) : Prop :=
  ∃ j input, inputs[j]? = some input ∧ input.source = k ∧ coins.spentBy k id (i + j)

theorem spentFrom_cons {i : Nat} {input : Input} {inputs : List Input} {k : OutputKey} :
    coins.SpentFrom id i (input :: inputs) k ↔
      (input.source = k ∧ coins.spentBy k id i) ∨ coins.SpentFrom id (i + 1) inputs k := by
  constructor
  · rintro ⟨j, p, hj, hp, hs⟩
    cases j with
    | zero => left; simp_all
    | succ j => right; exact ⟨j, p, by simpa using hj, hp, by rwa [Nat.add_right_comm]⟩
  · rintro (⟨hp, hs⟩ | ⟨j, p, hj, hp, hs⟩)
    · exact ⟨0, input, rfl, hp, hs⟩
    · exact ⟨j + 1, p, by simpa using hj, hp, by rwa [Nat.add_right_comm] at hs⟩

variable {source? : OutputKey → Option Output}

theorem types_unspend (i : Nat) : (coins.unspend source? id i key).types = coins.types := by
  unfold unspend
  split <;> rfl

theorem types_unspendAll (i : Nat) (inputs : List Input) :
    (coins.unspendAll source? id i inputs).types = coins.types := by
  induction inputs generalizing coins i with
  | nil => rfl
  | cons input inputs ih => rw [unspendAll, ih, types_unspend]

theorem spent_unspend (i : Nat) (k : OutputKey) :
    (coins.unspend source? id i key).spent[k]? =
      if key = k ∧ coins.spentBy k id i then none else coins.spent[k]? := by
  unfold unspend
  split <;> grind

theorem unspent_unspend (i : Nat) (k : OutputKey) :
    (coins.unspend source? id i key).unspent[k]? =
      if key = k ∧ coins.spentBy k id i then (source? k).or coins.unspent[k]?
      else coins.unspent[k]? := by
  unfold unspend
  split
  · cases h : source? key <;> grind
  · grind

theorem spentBy_iff {k : OutputKey} {i : Nat} :
    coins.spentBy k id i ↔
      ∃ info, coins.spent[k]? = some info ∧ info.txId = id ∧ info.inputIndex = i := by
  unfold spentBy
  cases h : coins.spent[k]? <;> simp

theorem spentFrom_congr {a b : Coins} {i : Nat} {inputs : List Input} {k : OutputKey}
    (h : a.spent[k]? = b.spent[k]?) : a.SpentFrom id i inputs k ↔ b.SpentFrom id i inputs k := by
  simp [SpentFrom, spentBy, h]

theorem not_spentFrom {i : Nat} {inputs : List Input} {k : OutputKey}
    (h : ∀ info, coins.spent[k]? = some info → info.txId ≠ id) :
    ¬coins.SpentFrom id i inputs k := by
  rintro ⟨j, input, hj, hk, hs⟩
  obtain ⟨info, hi, ht, -⟩ := spentBy_iff.1 hs
  exact h info hi ht

theorem unspendAll_of_not_spentFrom {i : Nat} {inputs : List Input} {k : OutputKey}
    (h : ¬coins.SpentFrom id i inputs k) :
    (coins.unspendAll source? id i inputs).spent[k]? = coins.spent[k]? ∧
      (coins.unspendAll source? id i inputs).unspent[k]? = coins.unspent[k]? := by
  induction inputs generalizing coins i with
  | nil => exact ⟨rfl, rfl⟩
  | cons input inputs ih =>
    rw [spentFrom_cons, not_or] at h
    have hs : (coins.unspend source? id i input.source).spent[k]? = coins.spent[k]? := by
      rw [spent_unspend, if_neg h.1]
    have hu : (coins.unspend source? id i input.source).unspent[k]? = coins.unspent[k]? := by
      rw [unspent_unspend, if_neg h.1]
    have hn := mt (spentFrom_congr hs).1 h.2
    rw [unspendAll, (ih hn).1, (ih hn).2]
    exact ⟨hs, hu⟩

/-- After the first input that spent a key has been taken back, the others find nothing. -/
theorem unspendAll_of_spentFrom {i : Nat} {inputs : List Input} {k : OutputKey}
    (h : coins.SpentFrom id i inputs k) :
    (coins.unspendAll source? id i inputs).spent[k]? = none ∧
      (coins.unspendAll source? id i inputs).unspent[k]? =
        (source? k).or coins.unspent[k]? := by
  induction inputs generalizing coins i with
  | nil =>
    obtain ⟨j, input, hj, -⟩ := h
    simp at hj
  | cons input inputs ih =>
    rw [unspendAll]
    by_cases hk : input.source = k ∧ coins.spentBy k id i
    · have hs : (coins.unspend source? id i input.source).spent[k]? = none := by
        rw [spent_unspend, if_pos hk]
      have hu : (coins.unspend source? id i input.source).unspent[k]? =
          (source? k).or coins.unspent[k]? := by
        rw [unspent_unspend, if_pos hk]
      have hn : ¬(coins.unspend source? id i input.source).SpentFrom id (i + 1) inputs k :=
        not_spentFrom fun info hi => by simp [hs] at hi
      rw [(unspendAll_of_not_spentFrom hn).1, (unspendAll_of_not_spentFrom hn).2]
      exact ⟨hs, hu⟩
    · have hs : (coins.unspend source? id i input.source).spent[k]? = coins.spent[k]? := by
        rw [spent_unspend, if_neg hk]
      have hu : (coins.unspend source? id i input.source).unspent[k]? = coins.unspent[k]? := by
        rw [unspent_unspend, if_neg hk]
      have hr := (spentFrom_cons.1 h).resolve_left hk
      rw [← hu]
      exact ih ((spentFrom_congr hs).2 hr)

/-- Taking back the inputs of a transaction undoes their spending, if nothing was spent under its
id before and the outputs can be found again. -/
theorem unspendAll_spendAll {i : Nat} {inputs : List Input}
    (hid : ∀ (k : OutputKey) info, coins.spent[k]? = some info → info.txId ≠ id)
    (hdis : ∀ k ∈ coins.unspent, k ∉ coins.spent)
    (hsource : ∀ (k : OutputKey) o, coins.unspent[k]? = some o → source? k = some o) :
    (coins.spendAll height id i inputs).unspendAll source? id i inputs = coins := by
  have key (k : OutputKey) :
      ((coins.spendAll height id i inputs).unspendAll source? id i inputs).spent[k]? =
          coins.spent[k]? ∧
        ((coins.spendAll height id i inputs).unspendAll source? id i inputs).unspent[k]? =
          coins.unspent[k]? := by
    have hs := @spent_spendAll coins height id inputs i k
    have hu := @unspent_spendAll coins height id inputs i k
    -- Only a key that was unspent and is named moves, and it moves back.
    by_cases hk : k ∈ coins.unspent ∧ (spender? inputs k).isSome
    · obtain ⟨hmem, hsome⟩ := hk
      obtain ⟨j, hj⟩ := Option.isSome_iff_exists.1 hsome
      obtain ⟨o, ho⟩ := Option.isSome_iff_exists.1 (Std.ExtTreeMap.isSome_getElem?_iff_mem.2 hmem)
      rw [if_pos hmem, hj, Option.map_some, Option.some_or] at hs
      rw [if_pos hsome] at hu
      have hfrom : (coins.spendAll height id i inputs).SpentFrom id i inputs k := by
        obtain ⟨hlt, hp, -⟩ := List.findIdx?_eq_some_iff_getElem.1 hj
        exact ⟨j, inputs[j], List.getElem?_eq_getElem hlt, by simpa using hp,
          spentBy_iff.2 ⟨_, hs, rfl, rfl⟩⟩
      rw [(unspendAll_of_spentFrom hfrom).1, (unspendAll_of_spentFrom hfrom).2, hu,
        hsource k o ho, ho, Std.ExtTreeMap.getElem?_eq_none (hdis k hmem)]
      exact ⟨rfl, rfl⟩
    · have hs' : (coins.spendAll height id i inputs).spent[k]? = coins.spent[k]? := by
        rw [hs]
        split
        · next hmem =>
          have hnone : spender? inputs k = none :=
            Option.not_isSome_iff_eq_none.1 fun h => hk ⟨hmem, h⟩
          rw [hnone, Option.map_none, Option.none_or]
        · rfl
      have hu' : (coins.spendAll height id i inputs).unspent[k]? = coins.unspent[k]? := by
        rw [hu]
        split
        · next h => exact (Std.ExtTreeMap.getElem?_eq_none fun hmem => hk ⟨hmem, h⟩).symm
        · rfl
      have hn : ¬(coins.spendAll height id i inputs).SpentFrom id i inputs k :=
        not_spentFrom fun info hi => hid k info (hs'.symm.trans hi)
      rw [(unspendAll_of_not_spentFrom hn).1, (unspendAll_of_not_spentFrom hn).2]
      exact ⟨hs', hu'⟩
  apply ext
  · exact fun k => (key k).2
  · exact fun k => (key k).1
  · intro k
    rw [types_unspendAll, types_spendAll]

end DaoLedger.Coins
