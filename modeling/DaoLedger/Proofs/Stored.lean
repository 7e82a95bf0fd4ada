import DaoLedger.Ledger.Query
import DaoLedger.Proofs.Coins
/-!
Lists of stored transactions, in chain order: what they say about ids and output keys when ids are
not repeated and every transaction names its outputs by its own id and position.
-/
namespace DaoLedger

theorem find?_eq_some_of_nodup {α β : Type} [DecidableEq β] {f : α → β} {xs : List α}
    (hn : (xs.map f).Nodup) {b : β} {a : α} :
    xs.find? (f · = b) = some a ↔ a ∈ xs ∧ f a = b := by
  induction xs with
  | nil => simp
  | cons x xs ih =>
    rw [List.map_cons, List.nodup_cons] at hn
    rw [List.find?_cons]
    by_cases hx : f x = b
    · have hxs (y : α) (hy : y ∈ xs) : f y ≠ b := fun he =>
        hn.1 (List.mem_map.2 ⟨y, hy, he.trans hx.symm⟩)
      simp only [hx, decide_true, Option.some.injEq, List.mem_cons]
      constructor
      · rintro rfl
        exact ⟨.inl rfl, hx⟩
      · rintro ⟨rfl | ha, he⟩
        · rfl
        · exact absurd he (hxs a ha)
    · simp only [hx, decide_false, ih hn.2, List.mem_cons]
      constructor
      · exact fun ⟨ha, he⟩ => ⟨.inr ha, he⟩
      · rintro ⟨rfl | ha, he⟩
        · exact absurd he hx
        · exact ⟨ha, he⟩

theorem filter_eq_singleton_of_nodup {α β : Type} [DecidableEq β] {f : α → β} {xs : List α}
    (hn : (xs.map f).Nodup) {x : α} (hx : x ∈ xs) : xs.filter (f · = f x) = [x] := by
  induction xs with
  | nil => cases hx
  | cons first rest ih =>
    obtain ⟨hfirst, hrest⟩ := List.nodup_cons.1 hn
    rcases List.mem_cons.1 hx with rfl | hx
    · rw [List.filter_cons_of_pos (by simp), List.filter_eq_nil_iff.2]
      intro other hother hsame
      exact hfirst (List.mem_map.2 ⟨other, hother, decide_eq_true_iff.1 hsame⟩)
    · have hne : f first ≠ f x := fun h => hfirst (List.mem_map.2 ⟨x, hx, h.symm⟩)
      rw [List.filter_cons_of_neg (by simpa using hne), ih hrest hx]

theorem Ledger.blockAt?_eq_some {l : Ledger} (h : (l.chain.map (·.height)).Pairwise (· > ·))
    {height : UInt32} {b : Block} :
    l.blockAt? height = some b ↔ b ∈ l.chain ∧ b.height = height :=
  find?_eq_some_of_nodup (h.imp fun hlt => (UInt32.ne_of_lt hlt).symm)

theorem append_one_eq_append_cons {α : Type} {xs older newer : List α} {x y : α}
    (h : xs ++ [x] = older ++ y :: newer) :
    (older = xs ∧ y = x) ∨ ∃ newer', xs = older ++ y :: newer' := by
  rcases List.eq_nil_or_concat newer with rfl | ⟨newer', last, rfl⟩
  · obtain ⟨rfl, hx⟩ := List.append_inj' h rfl
    exact .inl ⟨rfl, (List.singleton_inj.1 hx).symm⟩
  · rw [List.concat_eq_append, ← List.cons_append, ← List.append_assoc] at h
    exact .inr ⟨newer', (List.append_inj' h rfl).1⟩

/-! ### Naming of outputs -/

/-- Outputs carry the id of their transaction and their position as index. -/
def RawTx.Named (tx : RawTx) : Prop :=
  ∀ i (o : RawOutput), tx.outputs[i]? = some o → o.txId = tx.id ∧ o.index.toNat = i

instance (tx : RawTx) : Decidable tx.Named :=
  decidable_of_iff (∀ p ∈ tx.outputs.zipIdx, p.1.txId = tx.id ∧ p.1.index.toNat = p.2) <| by
    constructor
    · exact fun h i o ho => h (o, i) (List.mem_zipIdx_iff_getElem?.2 ho)
    · exact fun h p hp => h p.2 p.1 (List.mem_zipIdx_iff_getElem?.1 hp)

def RawBlock.Named (raw : RawBlock) : Prop := ∀ tx ∈ raw.txs, tx.Named

instance (raw : RawBlock) : Decidable raw.Named :=
  inferInstanceAs (Decidable (∀ tx ∈ raw.txs, tx.Named))

def Tx.Named (tx : Tx) : Prop := tx.raw.Named

instance (tx : Tx) : Decidable tx.Named := inferInstanceAs (Decidable tx.raw.Named)

namespace Tx
variable {tx : Tx} {key : OutputKey} {o : Output}

theorem Named.key_of_getElem? (hn : tx.Named) {i : Nat} (h : tx.outputs[i]? = some o) :
    o.txId = tx.id ∧ o.index.toNat = i := by
  apply hn i o.toRawOutput
  simp [Tx.raw, h]

theorem Named.nodup_keys (hn : tx.Named) : (tx.outputs.map Output.key).Nodup := by
  apply List.pairwise_iff_getElem.2
  intro i j hi hj hij h
  simp only [List.getElem_map] at h
  rw [List.length_map] at hi hj
  have hi' := (hn.key_of_getElem? (List.getElem?_eq_getElem hi)).2
  have hj' := (hn.key_of_getElem? (List.getElem?_eq_getElem hj)).2
  have he : tx.outputs[i].index = tx.outputs[j].index := congrArg OutputKey.index h
  rw [he, hj'] at hi'
  omega

theorem Named.output?_eq_some (hn : tx.Named) (hid : key.txId = tx.id) :
    tx.output? key.index = some o ↔ o ∈ tx.outputs ∧ o.key = key := by
  constructor
  · intro h
    obtain ⟨ht, hi⟩ := hn.key_of_getElem? h
    refine ⟨List.mem_of_getElem? h, ?_⟩
    obtain ⟨id, index⟩ := key
    simp only [Output.key, OutputKey.mk.injEq]
    exact ⟨ht.trans hid.symm, UInt32.toNat_inj.1 hi⟩
  · rintro ⟨ho, rfl⟩
    obtain ⟨i, hi⟩ := List.mem_iff_getElem?.1 ho
    rw [output?, Output.key, (hn.key_of_getElem? hi).2, hi]

theorem Named.find?_key (hn : tx.Named) (key : OutputKey) :
    tx.outputs.find? (·.key = key) = if key.txId = tx.id then tx.output? key.index else none := by
  split
  · next hid =>
    ext o
    rw [find?_eq_some_of_nodup hn.nodup_keys, hn.output?_eq_some hid]
  · next hid =>
    rw [List.find?_eq_none]
    intro o ho he
    obtain ⟨i, hi⟩ := List.mem_iff_getElem?.1 ho
    have hk : o.key = key := by simpa using he
    exact hid (by rw [← hk]; exact (hn.key_of_getElem? hi).1)

end Tx

/-! ### Outputs of a list of transactions -/

def outputIn? (txs : List Tx) (key : OutputKey) : Option Output :=
  (txs.find? (·.id = key.txId)).bind (·.output? key.index)

/-- Ids are not repeated, and outputs are named by their transaction and position. -/
structure Distinct (txs : List Tx) : Prop where
  ids : (txs.map Tx.id).Nodup
  named : ∀ tx ∈ txs, tx.Named

variable {txs : List Tx} {tx : Tx} {key : OutputKey}

theorem distinct_append_one :
    Distinct (txs ++ [tx]) ↔ Distinct txs ∧ tx.id ∉ txs.map Tx.id ∧ tx.Named := by
  constructor
  · rintro ⟨hi, hn⟩
    rw [List.map_append, List.nodup_append] at hi
    refine ⟨⟨hi.1, fun t ht => hn t (by simp [ht])⟩, fun hm => ?_, hn tx (by simp)⟩
    exact hi.2.2 _ hm _ (by simp) rfl
  · rintro ⟨⟨hi, hn⟩, hf, ht⟩
    refine ⟨?_, fun t hm => ?_⟩
    · rw [List.map_append, List.nodup_append]
      exact ⟨hi, by simp, fun a ha b hb he => hf (by simp_all)⟩
    · rcases List.mem_append.1 hm with hm | hm
      · exact hn t hm
      · exact (List.mem_singleton.1 hm) ▸ ht

theorem Distinct.of_append {more : List Tx} (h : Distinct (txs ++ more)) : Distinct txs := by
  refine ⟨?_, fun t ht => h.named t (by simp [ht])⟩
  have hi := h.ids
  rw [List.map_append, List.nodup_append] at hi
  exact hi.1

theorem Distinct.find?_eq_some (h : Distinct txs) {id : TxId} :
    txs.find? (·.id = id) = some tx ↔ tx ∈ txs ∧ tx.id = id :=
  find?_eq_some_of_nodup h.ids

theorem find?_append_one (id : TxId) :
    (txs ++ [tx]).find? (·.id = id) =
      (txs.find? (·.id = id)).or (if tx.id = id then some tx else none) := by
  rw [List.find?_append]
  by_cases h : tx.id = id <;> simp [h]

theorem find?_eq_none_of_fresh {id : TxId} (h : id ∉ txs.map Tx.id) :
    txs.find? (·.id = id) = none := by
  rw [List.find?_eq_none]
  intro t ht he
  exact h (List.mem_map.2 ⟨t, ht, by simpa using he⟩)

theorem outputIn?_append_one (hf : tx.id ∉ txs.map Tx.id) (key : OutputKey) :
    outputIn? (txs ++ [tx]) key =
      if key.txId = tx.id then tx.output? key.index else outputIn? txs key := by
  unfold outputIn?
  rw [find?_append_one]
  split
  · next h =>
    rw [find?_eq_none_of_fresh (h ▸ hf), if_pos h.symm]
    rfl
  · next h => rw [if_neg (Ne.symm h), Option.or_none]

theorem outputIn?_of_fresh {id : TxId} {index : UInt32} (hf : id ∉ txs.map Tx.id) :
    outputIn? txs ⟨id, index⟩ = none := by
  simp [outputIn?, find?_eq_none_of_fresh hf]

theorem outputIn?_append {more : List Tx} {o : Output} (h : outputIn? txs key = some o) :
    outputIn? (txs ++ more) key = some o := by
  obtain ⟨t, ht, ho⟩ := Option.bind_eq_some_iff.1 h
  simp [outputIn?, List.find?_append, ht, ho]

theorem Distinct.outputIn?_eq_some (h : Distinct txs) {o : Output} :
    outputIn? txs key = some o ↔ ∃ tx ∈ txs, o ∈ tx.outputs ∧ o.key = key := by
  rw [outputIn?, Option.bind_eq_some_iff]
  constructor
  · rintro ⟨t, ht, ho⟩
    obtain ⟨hm, hid⟩ := h.find?_eq_some.1 ht
    exact ⟨t, hm, ((h.named t hm).output?_eq_some hid.symm).1 ho⟩
  · rintro ⟨t, hm, ho, rfl⟩
    obtain ⟨i, hi⟩ := List.mem_iff_getElem?.1 ho
    have hid : o.key.txId = t.id := ((h.named t hm).key_of_getElem? hi).1
    exact ⟨t, h.find?_eq_some.2 ⟨hm, hid.symm⟩, ((h.named t hm).output?_eq_some hid).2 ⟨ho, rfl⟩⟩

/-! ### Some blocks -/

namespace Sample

def genesis : Genesis := ⟨⟨"g"⟩, 10, 1000⟩

def output (id : String) (index : UInt32) (value : UInt64) : RawOutput :=
  ⟨index, value, ⟨id⟩, none, none, none, 10⟩

def input (id : String) (index : UInt32) : Input := ⟨⟨⟨id⟩, index⟩, none⟩

def supply : RawTx := ⟨⟨"g"⟩, 10, ⟨"a"⟩, 0, [], [output "g" 0 600, output "g" 1 400]⟩

def request : RawTx where
  id := ⟨"r"⟩
  blockHeight := 10
  blockHash := ⟨"a"⟩
  time := 0
  inputs := [input "x" 7, input "g" 1]
  outputs := [output "r" 0 200, output "r" 1 5000,
    { output "r" 2 0 with payload := some (0x11 :: 1 :: List.replicate 20 0) }]

def payment : RawTx := ⟨⟨"p"⟩, 11, ⟨"b"⟩, 0, [input "g" 0], [output "p" 0 590]⟩

def idle : RawTx := ⟨⟨"i"⟩, 11, ⟨"b"⟩, 0, [input "x" 9], [output "i" 0 5]⟩

def first : RawBlock := ⟨10, 0, ⟨"a"⟩, ⟨"0"⟩, [supply, request]⟩

def second : RawBlock := ⟨11, 0, ⟨"b"⟩, ⟨"a"⟩, [idle, payment]⟩

def clash : RawBlock :=
  ⟨11, 0, ⟨"b"⟩, ⟨"a"⟩, [payment, { payment with inputs := [input "r" 0] }]⟩

def blindVote : RawTx where
  id := ⟨"v"⟩
  blockHeight := 3760
  blockHash := ⟨"b"⟩
  time := 0
  inputs := [input "g" 0]
  outputs := [output "v" 0 400,
    { output "v" 1 0 with payload := some (0x12 :: 1 :: List.replicate 20 0) }]

def voting : RawBlock := ⟨3760, 0, ⟨"b"⟩, ⟨"a"⟩, [blindVote]⟩

end Sample

end DaoLedger
