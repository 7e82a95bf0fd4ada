import Mathlib.Data.List.Induction
import DaoLedger.Ledger.Basic
import DaoLedger.Proofs.Amounts
/-!
The indices of the ledger as a function of the stored transactions. Main statements: what each
index holds for each key, and that withdrawing the last transaction gives back the indices of
those before it.
-/
namespace DaoLedger

structure Indices where
  txs : Map TxId Tx
  coins : Coins
  txTypes : Map TxId TxType
  burntFees : Map TxId Nat
  totalBurnt : Nat

def Ledger.indices (l : Ledger) : Indices :=
  ⟨l.txs, l.coins, l.txTypes, l.burntFees, l.totalBurnt⟩

namespace Indices

def empty : Indices := ⟨∅, .empty, ∅, ∅, 0⟩

def enter (x : Indices) (tx : Tx) : Indices where
  txs := x.txs.insert tx.id tx
  coins := (x.coins.spendAll tx.blockHeight tx.id 0 tx.inputs).createAll tx.outputs
  txTypes := x.txTypes.insert tx.id tx.type
  burntFees := if 0 < tx.burntFee then x.burntFees.insert tx.id tx.burntFee else x.burntFees
  totalBurnt := x.totalBurnt + tx.burntFee

def withdraw (x : Indices) (source? : OutputKey → Option Output) (tx : Tx) : Indices where
  txs := x.txs.erase tx.id
  coins := (x.coins.forgetAll tx.outputs).unspendAll source? tx.id 0 tx.inputs
  txTypes := x.txTypes.erase tx.id
  burntFees := x.burntFees.erase tx.id
  totalBurnt := x.totalBurnt - x.burntFees[tx.id]?.getD 0

def of (txs : List Tx) : Indices := txs.foldl enter empty

theorem of_append (txs more : List Tx) : of (txs ++ more) = more.foldl enter (of txs) :=
  List.foldl_append

theorem of_append_one (txs : List Tx) (tx : Tx) : of (txs ++ [tx]) = (of txs).enter tx :=
  of_append txs [tx]

end Indices

/-- A transaction spends a key with the first of its inputs that names it, and comes after the
transaction that made the output. -/
def SpendsIn (txs : List Tx) (key : OutputKey) (info : SpentInfo) : Prop :=
  ∃ older tx newer, txs = older ++ tx :: newer ∧ (outputIn? older key).isSome ∧
    tx.id = info.txId ∧ tx.blockHeight = info.blockHeight ∧
    Coins.spender? tx.inputs key = some info.inputIndex

theorem SpendsIn.append {txs : List Tx} {key : OutputKey} {info : SpentInfo}
    (h : SpendsIn txs key info) (more : List Tx) : SpendsIn (txs ++ more) key info := by
  obtain ⟨older, tx, newer, rfl, hrest⟩ := h
  exact ⟨older, tx, newer ++ more, by simp, hrest⟩

theorem SpendsIn.known {txs : List Tx} {key : OutputKey} {info : SpentInfo}
    (h : SpendsIn txs key info) : (outputIn? txs key).isSome := by
  obtain ⟨older, tx, newer, rfl, ho, -⟩ := h
  obtain ⟨o, ho⟩ := Option.isSome_iff_exists.1 ho
  rw [outputIn?_append ho]
  rfl

theorem SpendsIn.mem {txs : List Tx} {key : OutputKey} {info : SpentInfo}
    (h : SpendsIn txs key info) : info.txId ∈ txs.map Tx.id := by
  obtain ⟨older, tx, newer, rfl, -, hid, -⟩ := h
  exact List.mem_map.2 ⟨tx, by simp, hid⟩

structure Indices.Reflects (txs : List Tx) (x : Indices) : Prop where
  tx : ∀ id : TxId, x.txs[id]? = txs.find? (·.id = id)
  txType : ∀ id : TxId, x.txTypes[id]? = (txs.find? (·.id = id)).map (·.type)
  burntFee : ∀ id : TxId,
    x.burntFees[id]? = ((txs.find? (·.id = id)).map (·.burntFee)).filter (0 < ·)
  totalBurnt : x.totalBurnt = total (txs.map (·.burntFee))
  type : ∀ key : OutputKey, x.coins.types[key]? = (outputIn? txs key).map (·.type)
  unspent : ∀ key : OutputKey,
    x.coins.unspent[key]? = if key ∈ x.coins.spent then none else outputIn? txs key
  spent : ∀ (key : OutputKey) info, x.coins.spent[key]? = some info → SpendsIn txs key info

namespace Indices.Reflects
variable {txs : List Tx} {x : Indices} {tx : Tx}

theorem empty : Reflects [] .empty where
  tx _ := Std.ExtTreeMap.getElem?_empty
  txType _ := Std.ExtTreeMap.getElem?_empty
  burntFee _ := Std.ExtTreeMap.getElem?_empty
  totalBurnt := rfl
  type _ := Std.ExtTreeMap.getElem?_empty
  unspent _ := by simp [Indices.empty, Coins.empty, outputIn?]
  spent key info h := by simp [Indices.empty, Coins.empty] at h

theorem outputIn?_of_unspent (h : Reflects txs x) {key : OutputKey} {o : Output}
    (hu : x.coins.unspent[key]? = some o) : outputIn? txs key = some o := by
  rw [h.unspent] at hu
  split at hu
  · simp at hu
  · exact hu

theorem not_mem_spent (h : Reflects txs x) {key : OutputKey} (hk : outputIn? txs key = none) :
    key ∉ x.coins.spent := by
  intro hs
  obtain ⟨info, hi⟩ := Option.isSome_iff_exists.1 (Std.ExtTreeMap.isSome_getElem?_iff_mem.2 hs)
  have hknown := (h.spent key info hi).known
  simp [hk] at hknown

theorem not_mem_unspent (h : Reflects txs x) {key : OutputKey} (hk : outputIn? txs key = none) :
    key ∉ x.coins.unspent := by
  rw [← Std.ExtTreeMap.isSome_getElem?_iff_mem, h.unspent, hk]
  simp

theorem unspent_disjoint (h : Reflects txs x) {key : OutputKey} (hk : key ∈ x.coins.unspent) :
    key ∉ x.coins.spent := by
  intro hs
  rw [← Std.ExtTreeMap.isSome_getElem?_iff_mem, h.unspent, if_pos hs] at hk
  simp at hk

/-! ### Entering a transaction -/

theorem mem_spent_enter (key : OutputKey) :
    key ∈ (x.enter tx).coins.spent ↔
      key ∈ x.coins.spent ∨
        key ∈ x.coins.unspent ∧ (Coins.spender? tx.inputs key).isSome := by
  rw [← Std.ExtTreeMap.isSome_getElem?_iff_mem]
  simp only [enter, Coins.spent_createAll, Coins.spent_spendAll]
  split
  · next hu => simp [hu, or_comm]
  · next hu => simp [hu]

theorem spent_enter (h : Reflects txs x) (key : OutputKey) (info : SpentInfo)
    (hs : (x.enter tx).coins.spent[key]? = some info) : SpendsIn (txs ++ [tx]) key info := by
  simp only [enter, Coins.spent_createAll, Coins.spent_spendAll] at hs
  split at hs
  · next hu =>
    cases hj : Coins.spender? tx.inputs key with
    | none =>
      rw [hj, Option.map_none, Option.none_or] at hs
      exact (h.spent key info hs).append [tx]
    | some j =>
      rw [hj, Option.map_some, Option.some_or, Option.some.injEq] at hs
      subst hs
      obtain ⟨o, ho⟩ := Option.isSome_iff_exists.1 (Std.ExtTreeMap.isSome_getElem?_iff_mem.2 hu)
      refine ⟨txs, tx, [], rfl, ?_, rfl, rfl, by simpa using hj⟩
      rw [h.outputIn?_of_unspent ho]
      rfl
  · exact (h.spent key info hs).append [tx]

theorem getElem?_unspent_enter (hn : tx.Named) (key : OutputKey) :
    (x.enter tx).coins.unspent[key]? =
      (if key.txId = tx.id then tx.output? key.index else none).or
        (if (Coins.spender? tx.inputs key).isSome then none else x.coins.unspent[key]?) := by
  simp only [enter, Coins.unspent_createAll hn.nodup_keys, hn.find?_key, Coins.unspent_spendAll]

theorem unspent_enter (h : Reflects txs x) (hf : tx.id ∉ txs.map Tx.id) (hn : tx.Named)
    (key : OutputKey) :
    (x.enter tx).coins.unspent[key]? =
      if key ∈ (x.enter tx).coins.spent then none else outputIn? (txs ++ [tx]) key := by
  simp only [getElem?_unspent_enter hn, outputIn?_append_one hf, mem_spent_enter]
  by_cases hk : key.txId = tx.id
  · have hnone : outputIn? txs key = none := outputIn?_of_fresh (hk ▸ hf)
    have hs := h.not_mem_spent hnone
    have hu := h.not_mem_unspent hnone
    simp [hk, hs, hu]
  · have hx := h.unspent key
    by_cases hs : key ∈ x.coins.spent
    · simp [hk, hs, hx]
    · rw [if_neg hs] at hx
      rw [← hx]
      by_cases hm : key ∈ x.coins.unspent
      · simp [hk, hs, hm]
      · simp [hk, hs, hm]

theorem type_enter (h : Reflects txs x) (hf : tx.id ∉ txs.map Tx.id) (hn : tx.Named)
    (key : OutputKey) :
    (x.enter tx).coins.types[key]? = (outputIn? (txs ++ [tx]) key).map (·.type) := by
  simp only [enter, Coins.types_createAll hn.nodup_keys, hn.find?_key, Coins.types_spendAll,
    outputIn?_append_one hf, h.type]
  split
  · next hk =>
    have hnone : outputIn? txs key = none := outputIn?_of_fresh (hk ▸ hf)
    simp [hnone]
  · simp

theorem enter (h : Reflects txs x) (hf : tx.id ∉ txs.map Tx.id) (hn : tx.Named) :
    Reflects (txs ++ [tx]) (x.enter tx) where
  tx id := by
    rw [find?_append_one, ← h.tx, Indices.enter, Std.ExtTreeMap.getElem?_insert]
    by_cases hid : tx.id = id
    · subst hid
      simp [h.tx, find?_eq_none_of_fresh hf]
    · simp [hid]
  txType id := by
    rw [find?_append_one, Indices.enter, Std.ExtTreeMap.getElem?_insert, h.txType]
    by_cases hid : tx.id = id
    · subst hid
      simp [find?_eq_none_of_fresh hf]
    · simp [hid]
  burntFee id := by
    have hb := h.burntFee id
    rw [find?_append_one, Indices.enter]
    by_cases hid : tx.id = id
    · subst hid
      rw [find?_eq_none_of_fresh hf] at hb ⊢
      by_cases hfee : 0 < tx.burntFee
      · simp [hfee, Option.filter]
      · simp [hfee, hb, Option.filter]
    · by_cases hfee : 0 < tx.burntFee
      · simp [hfee, hid, hb, Std.ExtTreeMap.getElem?_insert]
      · simp [hfee, hid, hb]
  totalBurnt := by simp [Indices.enter, h.totalBurnt, total_append, total]
  type := h.type_enter hf hn
  unspent := h.unspent_enter hf hn
  spent := h.spent_enter

/-! ### Withdrawing a transaction -/

/-- The transaction entered last is withdrawn without a trace. -/
theorem withdraw_enter (h : Reflects txs x) (hf : tx.id ∉ txs.map Tx.id) (hn : tx.Named)
    {source? : OutputKey → Option Output}
    (hs : ∀ key o, outputIn? txs key = some o → source? key = some o) :
    (x.enter tx).withdraw source? tx = x := by
  have hfind : txs.find? (·.id = tx.id) = none := find?_eq_none_of_fresh hf
  have hfresh (o : Output) (ho : o ∈ tx.outputs) : outputIn? txs o.key = none := by
    obtain ⟨i, hi⟩ := List.mem_iff_getElem?.1 ho
    exact outputIn?_of_fresh ((hn.key_of_getElem? hi).1 ▸ hf)
  -- Outputs go before inputs: they were made after the inputs were spent.
  have hcoins : ((x.enter tx).coins.forgetAll tx.outputs).unspendAll source? tx.id 0 tx.inputs =
      x.coins := by
    rw [Indices.enter, Coins.forgetAll_createAll hn.nodup_keys, Coins.unspendAll_spendAll]
    · intro key info hi he
      exact hf (he ▸ (h.spent key info hi).mem)
    · exact fun key => h.unspent_disjoint
    · exact fun key o ho => hs key o (h.outputIn?_of_unspent ho)
    · intro o ho
      have hu := h.not_mem_unspent (hfresh o ho)
      rw [← Std.ExtTreeMap.isSome_getElem?_iff_mem, Coins.unspent_spendAll]
      simp [hu]
    · intro o ho
      rw [← Std.ExtTreeMap.isSome_getElem?_iff_mem, Coins.types_spendAll, h.type, hfresh o ho]
      simp
  have htx : x.txs[tx.id]? = none := by rw [h.tx, hfind]
  have htype : x.txTypes[tx.id]? = none := by rw [h.txType, hfind, Option.map_none]
  have hfee : x.burntFees[tx.id]? = none := by
    rw [h.burntFee, hfind, Option.map_none, Option.filter_none]
  obtain ⟨txs', coins, txTypes, burntFees, totalBurnt⟩ := x
  simp only [withdraw, Indices.enter, mk.injEq]
  refine ⟨?_, hcoins, ?_, ?_, ?_⟩
  · exact Std.ExtTreeMap.ext_getElem? fun id => by grind
  · exact Std.ExtTreeMap.ext_getElem? fun id => by grind
  · exact Std.ExtTreeMap.ext_getElem? fun id => by grind
  · grind

end Indices.Reflects

theorem Distinct.reflects {txs : List Tx} (h : Distinct txs) : (Indices.of txs).Reflects txs := by
  induction txs using List.reverseRecOn with
  | nil => exact .empty
  | append_singleton txs tx ih =>
    obtain ⟨hd, hf, hn⟩ := distinct_append_one.1 h
    rw [Indices.of_append_one]
    exact (ih hd).enter hf hn

end DaoLedger
