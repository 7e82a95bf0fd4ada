import DaoLedger.Proofs.Applying
/-!
The order of the transactions in a block. Main statement: where neighbours that have nothing to do
with each other change places, and in every order that keeps the others as they were, a block is
accepted or refused alike, and leaves the same ledger but for the order inside the block.
-/
namespace DaoLedger

/-! ### Lists in another order -/

section
variable {α : Type} {independent : α → α → Prop} {x y : α} {xs ys : List α}

/-- Neighbours that are independent change places, any number of times. -/
inductive Swaps (independent : α → α → Prop) : List α → List α → Prop
  | refl (xs : List α) : Swaps independent xs xs
  | cons (x : α) {xs ys : List α} : Swaps independent xs ys → Swaps independent (x :: xs) (x :: ys)
  | swap {x y : α} (xs : List α) : independent x y → Swaps independent (x :: y :: xs) (y :: x :: xs)
  | trans {xs ys zs : List α} :
    Swaps independent xs ys → Swaps independent ys zs → Swaps independent xs zs

theorem Swaps.perm (h : Swaps independent xs ys) : xs.Perm ys := by
  induction h with
  | refl xs => exact .refl xs
  | cons x h ih => exact ih.cons x
  | swap xs hind => exact .swap ..
  | trans _ _ ihl ihr => exact ihl.trans ihr

theorem Swaps.append_left (before : List α) (h : Swaps independent xs ys) :
    Swaps independent (before ++ xs) (before ++ ys) := by
  induction before with
  | nil => exact h
  | cons x before ih => exact ih.cons x

variable [DecidableEq α]

/-- The same elements, and any two that are not independent in the same order. -/
structure Reordered (independent : α → α → Prop) (xs ys : List α) : Prop where
  perm : xs.Perm ys
  order : ∀ x ∈ xs, ∀ y ∈ xs, ¬independent x y →
    xs.filter (fun z => z = x ∨ z = y) = ys.filter fun z => z = x ∨ z = y

namespace Reordered

theorem symm (h : Reordered independent xs ys) : Reordered independent ys xs :=
  ⟨h.perm.symm, fun x hx y hy hdep =>
    (h.order x (h.perm.mem_iff.2 hx) y (h.perm.mem_iff.2 hy) hdep).symm⟩

theorem erase (h : Reordered independent xs ys) (a : α) :
    Reordered independent (xs.erase a) (ys.erase a) := by
  refine ⟨h.perm.erase a, fun x hx y hy hdep => ?_⟩
  have horder := h.order x (List.mem_of_mem_erase hx) y (List.mem_of_mem_erase hy) hdep
  rw [← List.erase_filter, ← List.erase_filter, horder]

theorem front (h : Reordered independent (x :: xs) ys) :
    Swaps independent (x :: ys.erase x) ys := by
  induction ys generalizing xs with
  | nil => exact absurd h.perm.symm (by simp)
  | cons y ys ih =>
    by_cases hxy : x = y
    · subst hxy
      rw [List.erase_cons_head]
      exact .refl _
    · have hind : independent x y := by
        by_contra hdep
        have hy : y ∈ x :: xs := h.perm.mem_iff.2 List.mem_cons_self
        have horder := h.order x List.mem_cons_self y hy hdep
        rw [List.filter_cons_of_pos (by simp), List.filter_cons_of_pos (by simp)] at horder
        exact hxy (List.cons.inj horder).1
      have hrest := h.erase y
      rw [List.erase_cons_head, List.erase_cons_tail (by simpa using hxy)] at hrest
      rw [List.erase_cons_tail (by simpa using Ne.symm hxy)]
      exact (Swaps.swap _ hind).trans ((ih hrest).cons y)

theorem swaps (h : Reordered independent xs ys) : Swaps independent xs ys := by
  induction xs generalizing ys with
  | nil =>
    rw [h.perm.symm.eq_nil]
    exact .refl _
  | cons x xs ih =>
    have hrest := h.erase x
    rw [List.erase_cons_head] at hrest
    exact ((ih hrest).cons x).trans h.front

end Reordered

end

/-! ### Independent transactions -/

def RawOutput.key (o : RawOutput) : OutputKey := ⟨o.txId, o.index⟩

/-- Two transactions spend different outputs, and neither spends one of the other. -/
structure RawTx.Independent (a b : RawTx) : Prop where
  ids : a.id ≠ b.id
  inputs : ∀ i ∈ a.inputs, ∀ j ∈ b.inputs, i.source ≠ j.source
  left : ∀ i ∈ a.inputs, ∀ o ∈ b.outputs, i.source ≠ o.key
  right : ∀ i ∈ b.inputs, ∀ o ∈ a.outputs, i.source ≠ o.key

namespace RawTx
variable {a b : RawTx}

theorem Independent.symm (h : a.Independent b) : b.Independent a :=
  ⟨h.ids.symm, fun i hi j hj => (h.inputs j hj i hi).symm, h.right, h.left⟩

theorem Independent.placed (h : a.Independent b) (height : UInt32) :
    (a.placed height).Independent b := by
  refine ⟨h.ids, h.inputs, h.left, fun i hi o ho => ?_⟩
  obtain ⟨q, hq, rfl⟩ := List.mem_map.1 ho
  exact h.right i hi q hq

instance : Decidable (a.Independent b) :=
  decidable_of_iff ((a.id ≠ b.id ∧ ∀ i ∈ a.inputs, ∀ j ∈ b.inputs, i.source ≠ j.source) ∧
    (∀ i ∈ a.inputs, ∀ o ∈ b.outputs, i.source ≠ o.key) ∧
      ∀ i ∈ b.inputs, ∀ o ∈ a.outputs, i.source ≠ o.key)
    ⟨fun h => ⟨h.1.1, h.1.2, h.2.1, h.2.2⟩, fun h => ⟨⟨h.ids, h.inputs⟩, h.left, h.right⟩⟩

/-- A transaction spends an output or makes it. -/
def Touches (tx : RawTx) (key : OutputKey) : Prop :=
  key ∈ tx.inputs.map Input.source ∨ key ∈ tx.outputs.map RawOutput.key

theorem Named.txId_of_mem (hn : a.Named) {key : OutputKey}
    (h : key ∈ a.outputs.map RawOutput.key) : key.txId = a.id := by
  obtain ⟨o, ho, rfl⟩ := List.mem_map.1 h
  obtain ⟨i, hi⟩ := List.mem_iff_getElem?.1 ho
  exact (hn i o hi).1

theorem Independent.not_touches (h : a.Independent b) (ha : a.Named) (hb : b.Named)
    {key : OutputKey} (hkey : a.Touches key) : ¬b.Touches key := by
  rintro (hb' | hb')
  · obtain ⟨j, hj, rfl⟩ := List.mem_map.1 hb'
    obtain ha' | ha' := hkey
    · obtain ⟨i, hi, he⟩ := List.mem_map.1 ha'
      exact h.inputs i hi j hj he
    · obtain ⟨o, ho, he⟩ := List.mem_map.1 ha'
      exact h.right j hj o ho he.symm
  · obtain ha' | ha' := hkey
    · obtain ⟨i, hi, rfl⟩ := List.mem_map.1 ha'
      obtain ⟨o, ho, he⟩ := List.mem_map.1 hb'
      exact h.left i hi o ho he.symm
    · exact h.ids ((ha.txId_of_mem ha').symm.trans (hb.txId_of_mem hb'))

end RawTx

/-! ### Entering into the indices -/

def Coins.at (coins : Coins) (key : OutputKey) :
    Option Output × Option SpentInfo × Option OutputType :=
  (coins.unspent[key]?, coins.spent[key]?, coins.types[key]?)

theorem Coins.ext_at {a b : Coins} (h : ∀ key, a.at key = b.at key) : a = b :=
  Coins.ext (fun k => (Prod.mk.inj (h k)).1) (fun k => (Prod.mk.inj (Prod.mk.inj (h k)).2).1)
    fun k => (Prod.mk.inj (Prod.mk.inj (h k)).2).2

namespace Indices
variable {x y : Indices} {a b tx : Tx} {key : OutputKey}

theorem at_enter (hn : tx.Named) (x : Indices) (key : OutputKey) :
    (x.enter tx).coins.at key =
      ((tx.outputs.find? (·.key = key)).or
          (if (Coins.spender? tx.inputs key).isSome then none else x.coins.unspent[key]?),
        if key ∈ x.coins.unspent then
          ((Coins.spender? tx.inputs key).map fun j => SpentInfo.mk tx.blockHeight tx.id (0 + j)).or
            x.coins.spent[key]?
        else x.coins.spent[key]?,
        ((tx.outputs.find? (·.key = key)).map (·.type)).or x.coins.types[key]?) := by
  rw [Coins.at, enter, Coins.unspent_createAll hn.nodup_keys, Coins.unspent_spendAll,
    Coins.spent_createAll, Coins.spent_spendAll, Coins.types_createAll hn.nodup_keys,
    Coins.types_spendAll]

theorem at_enter_of_not_touches (hn : tx.Named) (h : ¬tx.raw.Touches key) :
    (x.enter tx).coins.at key = x.coins.at key := by
  obtain ⟨hinput, houtput⟩ := not_or.1 h
  have hspender : Coins.spender? tx.inputs key = none :=
    Option.not_isSome_iff_eq_none.1 (mt Coins.spender?_isSome.1 hinput)
  have hfind : tx.outputs.find? (·.key = key) = none := by
    rw [List.find?_eq_none]
    intro o ho he
    refine houtput (List.mem_map.2 ⟨o.toRawOutput, List.mem_map.2 ⟨o, ho, rfl⟩, ?_⟩)
    exact of_decide_eq_true he
  rw [at_enter hn, hspender, hfind, Coins.at]
  simp

theorem at_enter_congr (hn : tx.Named) (h : x.coins.at key = y.coins.at key) :
    (x.enter tx).coins.at key = (y.enter tx).coins.at key := by
  obtain ⟨hu, hrest⟩ := Prod.mk.inj h
  obtain ⟨hs, ht⟩ := Prod.mk.inj hrest
  have hmem : key ∈ x.coins.unspent ↔ key ∈ y.coins.unspent := by
    rw [← Std.ExtTreeMap.isSome_getElem?_iff_mem, hu, Std.ExtTreeMap.isSome_getElem?_iff_mem]
  simp only [at_enter hn, hu, hs, ht, hmem]

theorem coins_enter_comm (ha : a.Named) (hb : b.Named) (h : a.raw.Independent b.raw) :
    ((x.enter a).enter b).coins = ((x.enter b).enter a).coins := by
  refine Coins.ext_at fun key => ?_
  by_cases hkey : a.raw.Touches key
  · have hnot := h.not_touches ha hb hkey
    rw [at_enter_of_not_touches hb hnot]
    exact at_enter_congr ha (at_enter_of_not_touches hb hnot).symm
  · rw [at_enter_of_not_touches ha hkey]
    exact at_enter_congr hb (at_enter_of_not_touches ha hkey)

theorem ext {x y : Indices} (htxs : x.txs = y.txs) (hcoins : x.coins = y.coins)
    (htypes : x.txTypes = y.txTypes) (hfees : x.burntFees = y.burntFees)
    (htotal : x.totalBurnt = y.totalBurnt) : x = y := by
  cases x
  cases y
  simp_all

theorem insert_comm {ν : Type} (m : Map TxId ν) {i j : TxId} (h : i ≠ j) (v w : ν) :
    (m.insert i v).insert j w = (m.insert j w).insert i v := by
  apply Std.ExtTreeMap.ext_getElem?
  intro k
  simp only [Std.ExtTreeMap.getElem?_insert]
  grind

theorem enter_comm (x : Indices) (ha : a.Named) (hb : b.Named) (h : a.raw.Independent b.raw) :
    (x.enter a).enter b = (x.enter b).enter a := by
  have hids : a.id ≠ b.id := h.ids
  have hcoins : ((x.enter a).enter b).coins = ((x.enter b).enter a).coins :=
    coins_enter_comm ha hb h
  have hfees : ((x.enter a).enter b).burntFees = ((x.enter b).enter a).burntFees := by
    simp only [enter]
    split
    · split
      · exact insert_comm x.burntFees hids _ _
      · rfl
    · rfl
  have htxs : ((x.enter a).enter b).txs = ((x.enter b).enter a).txs := insert_comm x.txs hids a b
  have htypes : ((x.enter a).enter b).txTypes = ((x.enter b).enter a).txTypes :=
    insert_comm x.txTypes hids a.type b.type
  have htotal : ((x.enter a).enter b).totalBurnt = ((x.enter b).enter a).totalBurnt :=
    Nat.add_right_comm ..
  exact Indices.ext htxs hcoins htypes hfees htotal

end Indices

/-! ### Classifying -/

/-- What transactions do not change of what classification reads. -/
structure Ledger.SameRules (l m : Ledger) : Prop where
  genesis : m.genesis = l.genesis
  issuances : m.issuances = l.issuances
  cycles : m.cycles = l.cycles
  paramChanges : m.paramChanges = l.paramChanges

theorem Claimed.judge_congr {l m : Ledger} (h : l.SameRules m) (c : Claimed) :
    c.judge m = c.judge l := by
  obtain ⟨hgenesis, hissuances, hcycles, hparams⟩ := h
  cases l
  cases m
  dsimp only at hgenesis hissuances hcycles hparams
  subst hcycles hparams
  rfl

namespace Ledger
variable {l m n : Ledger} {tx : RawTx} {height : UInt32} {c d : Classified}

theorem bsqInput?_congr (h : l.SameRules m) {input : Input}
    (hu : m.coins.unspent[input.source]? = l.coins.unspent[input.source]?) :
    m.bsqInput? input = l.bsqInput? input := by
  have hcarries : m.carriesBsq = l.carriesBsq := by
    funext o
    simp only [carriesBsq, isIssued, h.issuances]
  rw [bsqInput?, bsqInput?, unspent?, unspent?, hu, hcarries]

/-- Classification reads the rules and the unspent outputs that the inputs name. -/
theorem classify_congr (h : l.SameRules m) (hu : ∀ input ∈ tx.inputs,
    m.coins.unspent[input.source]? = l.coins.unspent[input.source]?) :
    m.classify tx height = l.classify tx height := by
  have hinput : ∀ input ∈ (tx.placed height).inputs, m.bsqInput? input = l.bsqInput? input :=
    fun input hi => bsqInput?_congr h (hu input hi)
  have hhas : m.hasBsqInput (tx.placed height).inputs = l.hasBsqInput (tx.placed height).inputs := by
    rw [Bool.eq_iff_iff, hasBsqInput, hasBsqInput, List.any_eq_true, List.any_eq_true]
    exact exists_congr fun input => and_congr_right fun hi => by rw [hinput input hi]
  have hbudget : m.inputBudget (tx.placed height).inputs =
      l.inputBudget (tx.placed height).inputs := by
    rw [inputBudget, List.filterMap_congr hinput, inputBudget]
  have hstake : m.unlocksStake (tx.placed height).inputs =
      l.unlocksStake (tx.placed height).inputs := by
    rw [unlocksStake, unlocksStake]
    cases hin : (tx.placed height).inputs with
    | nil => rfl
    | cons first rest => rw [List.head?_cons, Option.bind_some, Option.bind_some,
        hinput first (by simp [hin])]
  have hspending : m.classifySpending (tx.placed height) =
      l.classifySpending (tx.placed height) := by
    simp only [classifySpending, hbudget, hstake, Claimed.judge_congr h]
  rw [classify, classify, h.genesis]
  simp only [hhas, hspending]

theorem sameRules_adopted (l : Ledger) (c : Classified) : l.SameRules (l.adopted c) :=
  ⟨rfl, rfl, rfl, rfl⟩

theorem touches_of_classify (h : l.classify tx height = .ok c) {key : OutputKey} :
    c.tx.raw.Touches key ↔ tx.Touches key := by
  obtain hraw | hraw := raw_of_classify h
  · rw [hraw]
  · rw [hraw, RawTx.Touches, RawTx.placed, List.map_map]
    rfl

theorem independent_of_classify {a b : RawTx} (h : a.Independent b)
    (hc : l.classify a height = .ok c) : c.tx.raw.Independent b := by
  obtain hraw | hraw := raw_of_classify hc
  · rwa [hraw]
  · rw [hraw]
    exact h.placed height

theorem classify_adopted {a b : RawTx} (ha : a.Named) (hb : b.Named) (h : a.Independent b)
    (hc : l.classify a height = .ok c) :
    (l.adopted c).classify b height = l.classify b height := by
  refine classify_congr (l.sameRules_adopted c) fun input hi => ?_
  have hnot : ¬c.tx.raw.Touches input.source := fun htouches =>
    h.not_touches ha hb ((touches_of_classify hc).1 htouches) (.inl (List.mem_map_of_mem hi))
  have hat : (l.indices.enter c.tx).coins.at input.source = l.coins.at input.source :=
    Indices.at_enter_of_not_touches (named_of_classify ha hc) hnot
  exact (Prod.mk.inj hat).1

end Ledger

/-! ### Ledgers that differ in the order inside the tip -/

theorem perm_append_right_comm {α : Type} (xs ys zs : List α) :
    (xs ++ ys ++ zs).Perm (xs ++ zs ++ ys) := by
  rw [List.append_assoc, List.append_assoc]
  exact List.perm_append_comm.append_left xs

structure Block.Alike (b b' : Block) : Prop where
  header : b' = { b with txs := b'.txs, events := b'.events }
  txs : b'.txs.Perm b.txs
  events : b'.events.Perm b.events

namespace Block.Alike
variable {b b' b'' : Block}

theorem refl (b : Block) : b.Alike b := ⟨rfl, .refl _, .refl _⟩

theorem trans (h : b.Alike b') (h' : b'.Alike b'') : b.Alike b'' := by
  refine ⟨?_, h'.txs.trans h.txs, h'.events.trans h.events⟩
  rw [h'.header, h.header]

end Block.Alike

namespace Ledger
variable {l m n : Ledger} {tx : RawTx} {height : UInt32} {c d : Classified}

structure Alike (l m : Ledger) : Prop where
  rest : ∃ chain, m = { l with chain }
  tip : ∀ b, l.chain.head? = some b → ∃ b', m.chain.head? = some b' ∧ b.Alike b'

namespace Alike

theorem refl (l : Ledger) : l.Alike l := ⟨⟨l.chain, rfl⟩, fun b hb => ⟨b, hb, .refl b⟩⟩

theorem trans (h : l.Alike m) (h' : m.Alike n) : l.Alike n := by
  obtain ⟨chain, rfl⟩ := h.rest
  obtain ⟨chain', rfl⟩ := h'.rest
  refine ⟨⟨chain', rfl⟩, fun b hb => ?_⟩
  obtain ⟨b', hb', halike⟩ := h.tip b hb
  obtain ⟨b'', hb'', halike'⟩ := h'.tip b' hb'
  exact ⟨b'', hb'', halike.trans halike'⟩

theorem classify_eq (h : l.Alike m) (tx : RawTx) (height : UInt32) :
    m.classify tx height = l.classify tx height := by
  obtain ⟨chain, rfl⟩ := h.rest
  exact classify_congr ⟨rfl, rfl, rfl, rfl⟩ fun _ _ => rfl

theorem takes (h : l.Alike m) {t : Tx} (ht : l.Takes t) : m.Takes t := by
  obtain ⟨⟨b, hb, hheight⟩, hfresh⟩ := ht
  obtain ⟨b', hb', halike⟩ := h.tip b hb
  obtain ⟨chain, rfl⟩ := h.rest
  exact ⟨⟨b', hb', by rw [hheight, halike.header]⟩, hfresh⟩

theorem adopted (h : l.Alike m) (c : Classified) : (l.adopted c).Alike (m.adopted c) := by
  obtain ⟨⟨chain, rfl⟩, htip⟩ := h
  refine ⟨⟨_, rfl⟩, fun b hb => ?_⟩
  rw [Ledger.adopted, List.head?_modifyHead, Option.map_eq_some_iff] at hb
  obtain ⟨tip, hhead, rfl⟩ := hb
  obtain ⟨tip', hhead', halike⟩ := htip tip hhead
  refine ⟨_, by rw [Ledger.adopted, List.head?_modifyHead, hhead']; rfl, ?_, ?_, ?_⟩
  · rw [halike.header]
  · exact halike.txs.append_right _
  · exact halike.events.append_right _

end Alike

theorem takes_adopted {t : Tx} : (l.adopted c).Takes t ↔ l.Takes t ∧ t.id ≠ c.tx.id := by
  have hheight : (∃ tip, (l.adopted c).chain.head? = some tip ∧ t.blockHeight = tip.height) ↔
      ∃ tip, l.chain.head? = some tip ∧ t.blockHeight = tip.height := by
    rw [adopted, List.head?_modifyHead]
    cases l.chain.head? <;> simp
  have hfresh : t.id ∉ (l.adopted c).txs ↔ t.id ∉ l.txs ∧ t.id ≠ c.tx.id := by
    rw [adopted, entered, Std.ExtTreeMap.mem_insert, not_or, and_comm,
      Std.LawfulEqCmp.compare_eq_iff_eq, eq_comm]
  rw [Takes, hheight, hfresh, Takes, and_assoc]

/-- Two independent transactions are adopted in either order. -/
theorem adopted_comm (hc : c.tx.Named) (hd : d.tx.Named) (h : c.tx.raw.Independent d.tx.raw) :
    ((l.adopted c).adopted d).Alike ((l.adopted d).adopted c) := by
  have hindices : ((l.adopted d).adopted c).indices = ((l.adopted c).adopted d).indices :=
    (Indices.enter_comm l.indices hc hd h).symm
  refine ⟨⟨((l.adopted d).adopted c).chain, eq_of_indices hindices rfl rfl rfl rfl rfl⟩, ?_⟩
  simp only [adopted, List.head?_modifyHead, Option.map_map]
  intro b hb
  obtain ⟨tip, hhead, rfl⟩ := Option.map_eq_some_iff.1 hb
  refine ⟨_, by rw [hhead]; rfl, rfl, ?_, ?_⟩
  · exact perm_append_right_comm ..
  · exact perm_append_right_comm ..

/-! ### Entering transactions one by one -/

inductive Enters (height : UInt32) : Ledger → RawTx → Ledger → Prop
  | skip {l : Ledger} {tx : RawTx} {c : Classified} :
    l.classify tx height = .ok c → ¬c.isBsq → Enters height l tx l
  | adopt {l : Ledger} {tx : RawTx} {c : Classified} :
    l.classify tx height = .ok c → c.isBsq → l.Takes c.tx → Enters height l tx (l.adopted c)

theorem Enters.alike (h : Enters height l tx n) (ha : l.Alike m) :
    ∃ n', Enters height m tx n' ∧ n.Alike n' := by
  cases h with
  | skip hc hb => exact ⟨m, .skip ((ha.classify_eq tx height).trans hc) hb, ha⟩
  | adopt hc hb ht =>
    exact ⟨_, .adopt ((ha.classify_eq tx height).trans hc) hb (ha.takes ht), ha.adopted _⟩

theorem Enters.swap {a b : RawTx} (ha : a.Named) (hb : b.Named) (h : a.Independent b)
    (hl : Enters height l a m) (hm : Enters height m b n) :
    ∃ m' n', Enters height l b m' ∧ Enters height m' a n' ∧ n.Alike n' := by
  cases hl with
  | skip hc hna =>
    cases hm with
    | skip hd hnb => exact ⟨l, l, .skip hd hnb, .skip hc hna, .refl l⟩
    | adopt hd hisb ht =>
      have hc' := (classify_adopted hb ha h.symm hd).trans hc
      exact ⟨_, _, .adopt hd hisb ht, .skip hc' hna, .refl _⟩
  | @adopt c hc hisa ht =>
    have hsame := classify_adopted ha hb h hc
    cases hm with
    | skip hd hnb => exact ⟨l, _, .skip (hsame.symm.trans hd) hnb, .adopt hc hisa ht, .refl _⟩
    | @adopt d hd hisb ht' =>
      rw [hsame] at hd
      obtain ⟨htb, hids⟩ := takes_adopted.1 ht'
      have hc' := (classify_adopted hb ha h.symm hd).trans hc
      have hind := (independent_of_classify (independent_of_classify h hc).symm hd).symm
      exact ⟨_, _, .adopt hd hisb htb, .adopt hc' hisa (takes_adopted.2 ⟨ht, hids.symm⟩),
        adopted_comm (named_of_classify ha hc) (named_of_classify hb hd) hind⟩

inductive EntersAll (height : UInt32) : Ledger → List RawTx → Ledger → Prop
  | nil (l : Ledger) : EntersAll height l [] l
  | cons {l m n : Ledger} {tx : RawTx} {txs : List RawTx} :
    Enters height l tx m → EntersAll height m txs n → EntersAll height l (tx :: txs) n

namespace EntersAll
variable {txs txs' : List RawTx}

theorem alike (h : EntersAll height l txs n) (ha : l.Alike m) :
    ∃ n', EntersAll height m txs n' ∧ n.Alike n' := by
  induction h generalizing m with
  | nil l => exact ⟨m, .nil m, ha⟩
  | cons hfirst _ ih =>
    obtain ⟨m', hfirst', ha'⟩ := hfirst.alike ha
    obtain ⟨n', hrest', ha''⟩ := ih ha'
    exact ⟨n', .cons hfirst' hrest', ha''⟩

theorem swaps (hs : Swaps RawTx.Independent txs txs') (hn : ∀ tx ∈ txs, tx.Named)
    (h : EntersAll height l txs n) : ∃ n', EntersAll height l txs' n' ∧ n.Alike n' := by
  induction hs generalizing l n with
  | refl txs => exact ⟨n, h, .refl n⟩
  | cons tx hs ih =>
    obtain - | ⟨hfirst, hrest⟩ := h
    obtain ⟨n', hrest', ha⟩ := ih (fun t ht => hn t (List.mem_cons_of_mem tx ht)) hrest
    exact ⟨n', .cons hfirst hrest', ha⟩
  | swap txs hind =>
    obtain - | ⟨ha, hrest⟩ := h
    obtain - | ⟨hb, hrest⟩ := hrest
    obtain ⟨m', n', hb', ha', halike⟩ := Enters.swap (hn _ (by simp)) (hn _ (by simp)) hind ha hb
    obtain ⟨n'', hrest', halike'⟩ := hrest.alike halike
    exact ⟨n'', .cons hb' (.cons ha' hrest'), halike'⟩
  | trans hs _ ih ih' =>
    obtain ⟨n', h', ha⟩ := ih hn h
    obtain ⟨n'', h'', ha'⟩ := ih' (fun t ht => hn t (hs.perm.mem_iff.2 ht)) h'
    exact ⟨n'', h'', ha.trans ha'⟩

theorem iff_parseTxs : EntersAll height l txs n ↔
    (l.parseTxs height txs).outcome = .ok () ∧ (l.parseTxs height txs).ledger = n := by
  induction txs generalizing l with
  | nil =>
    constructor
    · rintro ⟨⟩
      exact ⟨rfl, rfl⟩
    · rintro ⟨-, rfl⟩
      exact .nil l
  | cons tx txs ih =>
    constructor
    · intro h
      obtain - | ⟨hfirst, hrest⟩ := h
      cases hfirst with
      | skip hc hb =>
        rw [(parseTxs_skip hc hb).1, (parseTxs_skip hc hb).2]
        exact ih.1 hrest
      | adopt hc hb ht =>
        rw [(parseTxs_adopt hc hb ht).1, (parseTxs_adopt hc hb ht).2]
        exact ih.1 hrest
    · rintro ⟨ho, hl⟩
      cases hc : l.classify tx height with
      | error fault =>
        obtain ⟨-, e, he⟩ := @parseTxs_fault l tx height txs fault hc
        cases ho.symm.trans he
      | ok c =>
        by_cases hb : c.isBsq
        · by_cases ht : l.Takes c.tx
          · rw [(parseTxs_adopt hc hb ht).1] at hl
            rw [(parseTxs_adopt hc hb ht).2] at ho
            exact .cons (.adopt hc hb ht) (ih.2 ⟨ho, hl⟩)
          · obtain ⟨-, e, he⟩ := @parseTxs_refuse l tx height c txs hc hb ht
            cases ho.symm.trans he
        · rw [(parseTxs_skip hc hb).1] at hl
          rw [(parseTxs_skip hc hb).2] at ho
          exact .cons (.skip hc hb) (ih.2 ⟨ho, hl⟩)

end EntersAll

/-! ### The block as a whole -/

variable {raw raw' : RawBlock}

theorem apply_of_entersAll (hf : l.Opens raw)
    (h : EntersAll raw.height (l.opened raw) raw.txs m) :
    ∃ b, m.chain = b :: l.chain ∧ l.apply raw = (m, .ok b) := by
  obtain ⟨ho, rfl⟩ := EntersAll.iff_parseTxs.1 h
  exact apply_of_ok hf ho

theorem apply_eq_ok {b : Block} : l.apply raw = (m, .ok b) ↔
    l.Opens raw ∧ EntersAll raw.height (l.opened raw) raw.txs m ∧ m.chain = b :: l.chain := by
  constructor
  · intro h
    by_cases hf : l.Opens raw
    · cases ho : (l.attempted raw).outcome with
      | ok u =>
        obtain ⟨b', hchain, happly⟩ := apply_of_ok hf ho
        obtain ⟨rfl, hb⟩ := Prod.mk.inj (happly.symm.trans h)
        obtain rfl : b' = b := Result.ok.inj hb
        exact ⟨hf, EntersAll.iff_parseTxs.2 ⟨ho, rfl⟩, hchain⟩
      | error e =>
        rw [apply_of_fail hf ho] at h
        cases (Prod.mk.inj h).2
    · obtain ⟨e, -, he⟩ | he := apply_of_not_opens hf
      · cases (Prod.mk.inj (he.symm.trans h)).2
      · cases (Prod.mk.inj (he.symm.trans h)).2
  · rintro ⟨hf, hall, hchain⟩
    obtain ⟨b', hchain', happly⟩ := apply_of_entersAll hf hall
    obtain ⟨rfl, -⟩ := List.cons.inj (hchain'.symm.trans hchain)
    exact happly

/-- Two blocks are accepted or refused alike, and leave ledgers that differ in the order of the
transactions and of the events inside the new block. -/
structure AppliesAlike (l : Ledger) (raw raw' : RawBlock) : Prop where
  accepted : (∃ b, (l.apply raw').2 = .ok b) ↔ ∃ b, (l.apply raw).2 = .ok b
  endless : (l.apply raw').2 = .never ↔ (l.apply raw).2 = .never
  alike : ∀ m b, l.apply raw = (m, .ok b) → ∃ b', b.Alike b' ∧ m.chain = b :: l.chain ∧
    l.apply raw' = ({ m with chain := b' :: l.chain }, .ok b')

theorem apply_of_swaps {txs : List RawTx} (hn : raw.Named)
    (hs : Swaps RawTx.Independent raw.txs txs) {b : Block} (h : l.apply raw = (m, .ok b)) :
    ∃ b', b.Alike b' ∧ m.chain = b :: l.chain ∧
      l.apply { raw with txs } = ({ m with chain := b' :: l.chain }, .ok b') := by
  obtain ⟨hf, hall, hchain⟩ := apply_eq_ok.1 h
  obtain ⟨n, hall', halike⟩ := hall.swaps hs hn
  have hf' : l.Opens { raw with txs } := hf
  obtain ⟨b', hchain', happly⟩ := apply_of_entersAll hf' hall'
  obtain ⟨b'', hhead, hblock⟩ := halike.tip b (by rw [hchain]; rfl)
  obtain rfl : b' = b'' := by
    rw [hchain'] at hhead
    exact Option.some.inj hhead
  obtain ⟨chain, rfl⟩ := halike.rest
  obtain rfl : chain = b' :: l.chain := hchain'
  exact ⟨b', hblock, hchain, happly⟩

theorem appliesAlike_of_swaps {txs : List RawTx} (hn : raw.Named)
    (hs : Swaps RawTx.Independent raw.txs txs) (hs' : Swaps RawTx.Independent txs raw.txs) :
    l.AppliesAlike raw { raw with txs } := by
  refine ⟨⟨?_, ?_⟩, ?_, fun m b h => apply_of_swaps hn hs h⟩
  · rintro ⟨b, hb⟩
    have hn' : RawBlock.Named { raw with txs } := fun t ht => hn t (hs.perm.mem_iff.2 ht)
    obtain ⟨b', -, -, happly⟩ := apply_of_swaps hn' hs' (Prod.ext rfl hb)
    exact ⟨b', congrArg Prod.snd happly⟩
  · rintro ⟨b, hb⟩
    obtain ⟨b', -, -, happly⟩ := apply_of_swaps hn hs (Prod.ext rfl hb)
    exact ⟨b', congrArg Prod.snd happly⟩
  · -- Only the header decides whether opening ends.
    rw [apply_eq_never, apply_eq_never]
    rfl

theorem appliesAlike_of_reordered (l : Ledger) (raw : RawBlock) (hn : raw.Named) :
    (∀ before a b after, raw.txs = before ++ a :: b :: after → a.Independent b →
      l.AppliesAlike raw { raw with txs := before ++ b :: a :: after }) ∧
      ∀ txs, Reordered RawTx.Independent raw.txs txs → l.AppliesAlike raw { raw with txs } := by
  refine ⟨fun before a b after htxs h => ?_, fun txs h => ?_⟩
  · have hs := Swaps.append_left before (.swap after h)
    have hs' := Swaps.append_left before (.swap after h.symm)
    exact appliesAlike_of_swaps hn (htxs ▸ hs) (htxs ▸ hs')
  · exact appliesAlike_of_swaps hn h.swaps h.symm.swaps

theorem appliesAlike_samplePayments :
    let l := (Ledger.new Sample.genesis).applyAll [Sample.first]
    let q : RawTx := ⟨⟨"q"⟩, 11, ⟨"b"⟩, 0, [Sample.input "r" 0], [Sample.output "q" 0 150]⟩
    let s : RawTx := ⟨⟨"s"⟩, 11, ⟨"b"⟩, 0, [Sample.input "p" 0, Sample.input "q" 0],
      [Sample.output "s" 0 700]⟩
    let raw := { Sample.second with txs := [Sample.payment, q, s, Sample.idle] }
    let txs := [Sample.idle, q, Sample.payment, s]
    raw.Named ∧ Sample.payment.Independent q ∧ Reordered RawTx.Independent raw.txs txs ∧
      l.AppliesAlike raw { raw with txs := [q, Sample.payment, s, Sample.idle] } ∧
      ∃ m b b', l.apply raw = (m, .ok b) ∧ b.txs.map (·.id.text) = ["p", "q", "s"] ∧
        l.apply { raw with txs } = ({ m with chain := b' :: l.chain }, .ok b') ∧
        b'.txs.Perm b.txs := by
  intro l q s raw txs
  have hn : raw.Named := by decide
  have hind : Sample.payment.Independent q := by decide
  have hr : Reordered RawTx.Independent raw.txs txs := ⟨by decide, by decide⟩
  have hids : (l.apply raw).2.map (fun b => b.txs.map (·.id.text)) = .ok ["p", "q", "s"] := by
    decide +kernel
  obtain ⟨hswap, hreorder⟩ := appliesAlike_of_reordered l raw hn
  obtain ⟨b, hb, hids⟩ := Result.map_eq_ok.1 hids
  obtain ⟨b', halike, -, happly⟩ := (hreorder txs hr).alike _ b (Prod.ext rfl hb)
  exact ⟨hn, hind, hr, hswap [] _ _ [s, Sample.idle] rfl hind, _, b, b', Prod.ext rfl hb,
    hids, happly, halike.txs⟩

end Ledger

end DaoLedger
