import DaoLedger.Proofs.Indexed
/-!
Runs of the five writes. Main statement: after any run, accepted or refused writes mixed in any
order, every index says what the stored blocks say.
-/
namespace DaoLedger

inductive Write where
  | start (raw : RawBlock)
  | addTx (tx : Tx)
  | addEvent (event : Event)
  | addIssuance (txId : TxId) (height : UInt32)
  | removeTip

namespace Ledger

def write (l : Ledger) : Write → Ledger
  | .start raw => l.started raw
  | .addTx tx => l.kept (l.addTx tx)
  | .addEvent event => l.kept (l.addEvent event)
  | .addIssuance txId height => l.kept (l.addIssuance txId height)
  | .removeTip => (l.removeTip.map (·.2)).getD l

def writeAll (l : Ledger) (ws : List Write) : Ledger := ws.foldl write l

theorem Indexed.write {l : Ledger} (h : l.Indexed) {w : Write}
    (hn : ∀ tx, w = .addTx tx → tx.Named) : (l.write w).Indexed := by
  cases w with
  | start raw => exact started_cases h fun _ => h.start
  | addTx tx => exact kept_cases h fun _ => h.addTx (hn tx rfl)
  | addEvent event => exact kept_cases h fun _ => h.addEvent
  | addIssuance txId height => exact kept_cases h fun _ => h.addIssuance
  | removeTip =>
    unfold Ledger.write
    cases hr : l.removeTip with
    | none => exact h
    | some r => exact h.removeTip hr

theorem Indexed.writeAll {l : Ledger} (h : l.Indexed) {ws : List Write}
    (hn : ∀ tx, .addTx tx ∈ ws → tx.Named) : (l.writeAll ws).Indexed := by
  induction ws generalizing l with
  | nil => exact h
  | cons w ws ih =>
    refine ih (h.write fun tx hw => hn tx ?_) fun tx hw => hn tx (List.mem_cons_of_mem _ hw)
    exact hw ▸ List.mem_cons_self

def Makes (tx : Tx) (key : OutputKey) : Prop :=
  tx.id = key.txId ∧ key.index.toNat < tx.outputs.length

/-- Every index says what the stored blocks say. -/
structure Agrees (l : Ledger) : Prop where
  known : ∀ key, l.outputExists key ↔ ∃ tx ∈ l.storedTxs, Makes tx key
  onlyKnown : ∀ key, l.isUnspent key ∨ (l.spentInfo? key).isSome → l.outputExists key
  partition : ∀ key, l.outputExists key → (l.isUnspent key ↔ l.spentInfo? key = none)
  unspent : ∀ key o, l.unspent? key = some o →
    (∃ tx ∈ l.storedTxs, tx.id = key.txId ∧ tx.output? key.index = some o) ∧
      l.outputType? key = some o.type
  /-- The transaction that spent a key does so with the first of its inputs that names it, and
  comes after the one that made the output. -/
  spent : ∀ key info, l.spentInfo? key = some info →
    ∃ older tx newer, l.storedTxs = older ++ tx :: newer ∧ tx.id = info.txId ∧
      (∃ b ∈ l.blocks, b.height = info.blockHeight ∧ tx ∈ b.txs) ∧
      (∃ input, tx.inputs[info.inputIndex]? = some input ∧ input.source = key) ∧
      (∀ input ∈ tx.inputs.take info.inputIndex, input.source ≠ key) ∧
      ∃ maker ∈ older, Makes maker key
  tx : ∀ id tx, l.tx? id = some tx ↔ tx ∈ l.storedTxs ∧ tx.id = id
  txType : ∀ id type, l.txType? id = some type ↔ ∃ tx ∈ l.storedTxs, tx.id = id ∧ tx.type = type
  burntFee : ∀ tx ∈ l.storedTxs, l.burntFee tx.id = tx.burntFee
  totalBurnt : l.totalBurnt = total (l.storedTxs.map (·.burntFee))

theorem outputIn?_isSome {txs : List Tx} (hd : Distinct txs) {key : OutputKey} :
    (outputIn? txs key).isSome ↔ ∃ tx ∈ txs, Makes tx key := by
  rw [outputIn?, Option.isSome_bind, Option.any_eq_true]
  simp only [hd.find?_eq_some, Tx.output?, isSome_getElem?, Makes]
  constructor
  · rintro ⟨tx, ⟨hm, hid⟩, hlt⟩
    exact ⟨tx, hm, hid, hlt⟩
  · rintro ⟨tx, hm, hid, hlt⟩
    exact ⟨tx, ⟨hm, hid⟩, hlt⟩

theorem spender?_eq_some {inputs : List Input} {key : OutputKey} {i : Nat}
    (h : Coins.spender? inputs key = some i) :
    (∃ input, inputs[i]? = some input ∧ input.source = key) ∧
      ∀ input ∈ inputs.take i, input.source ≠ key := by
  obtain ⟨hlt, hi, hbefore⟩ := List.findIdx?_eq_some_iff_getElem.1 h
  refine ⟨⟨inputs[i], List.getElem?_eq_getElem hlt, by simpa using hi⟩, fun input hm => ?_⟩
  obtain ⟨j, hj, rfl⟩ := List.mem_take_iff_getElem.1 hm
  simpa using hbefore j (by omega)

namespace Indexed
variable {l : Ledger}

theorem block_of_mem (h : l.Indexed) {tx : Tx} (hm : tx ∈ l.storedTxs) :
    ∃ b ∈ l.blocks, b.height = tx.blockHeight ∧ tx ∈ b.txs := by
  obtain ⟨b, hb, ht⟩ := List.mem_flatMap.1 hm
  exact ⟨b, hb, (h.heights b (List.mem_reverse.1 hb) tx ht).symm, ht⟩

theorem outputExists_iff (h : l.Indexed) (key : OutputKey) :
    l.outputExists key ↔ (outputIn? l.storedTxs key).isSome := by
  have ht : l.coins.types[key]? = _ := h.reflects.type key
  rw [outputExists, decide_eq_true_eq, ← Std.ExtTreeMap.isSome_getElem?_iff_mem, ht,
    Option.isSome_map]

theorem isUnspent_iff (h : l.Indexed) (key : OutputKey) :
    l.isUnspent key ↔ l.spentInfo? key = none ∧ (outputIn? l.storedTxs key).isSome := by
  have hu : l.coins.unspent[key]? = if key ∈ l.coins.spent then none else _ :=
    h.reflects.unspent key
  rw [isUnspent, decide_eq_true_eq, ← Std.ExtTreeMap.isSome_getElem?_iff_mem, hu, spentInfo?]
  split
  · next hs => simp [hs]
  · next hs => simp [hs]

theorem agrees (h : l.Indexed) : l.Agrees where
  known key := (h.outputExists_iff key).trans (outputIn?_isSome h.distinct)
  onlyKnown key hk := by
    rw [h.outputExists_iff]
    rcases hk with hk | hk
    · exact ((h.isUnspent_iff key).1 hk).2
    · obtain ⟨info, hi⟩ := Option.isSome_iff_exists.1 hk
      exact (h.reflects.spent key info hi).known
  partition key hk := by
    rw [h.isUnspent_iff]
    exact and_iff_left ((h.outputExists_iff key).1 hk)
  unspent key o ho := by
    have hout := h.reflects.outputIn?_of_unspent ho
    have ht : l.coins.types[key]? = _ := h.reflects.type key
    obtain ⟨tx, htx, hto⟩ := Option.bind_eq_some_iff.1 hout
    obtain ⟨hm, hid⟩ := h.distinct.find?_eq_some.1 htx
    exact ⟨⟨tx, hm, hid, hto⟩, by rw [outputType?, ht, hout, Option.map_some]⟩
  spent key info hi := by
    obtain ⟨older, tx, newer, hs, ho, hid, hheight, hj⟩ := h.reflects.spent key info hi
    have hm : tx ∈ l.storedTxs := by simp [hs]
    obtain ⟨b, hb, hbh, hbt⟩ := h.block_of_mem hm
    obtain ⟨hinput, hfirst⟩ := spender?_eq_some hj
    have hd : Distinct older := (hs ▸ h.distinct).of_append
    exact ⟨older, tx, newer, hs, hid, ⟨b, hb, hbh.trans hheight, hbt⟩, hinput, hfirst,
      (outputIn?_isSome hd).1 ho⟩
  tx id tx := by rw [tx?, h.getElem?_txs, h.distinct.find?_eq_some]
  txType id type := by
    have ht : l.txTypes[id]? = _ := h.reflects.txType id
    rw [txType?, ht, Option.map_eq_some_iff]
    simp only [h.distinct.find?_eq_some, and_assoc]
  burntFee tx hm := by
    have hb : l.burntFees[tx.id]? = _ := h.reflects.burntFee tx.id
    rw [burntFee, hb, h.distinct.find?_eq_some.2 ⟨hm, rfl⟩]
    by_cases hfee : 0 < tx.burntFee
    · simp [hfee, Option.filter]
    · have hzero : tx.burntFee = 0 := by omega
      simp [hzero, Option.filter]
  totalBurnt := h.reflects.totalBurnt

end Indexed

theorem agrees_of_writes (g : Genesis) (ws : List Write)
    (hn : ∀ tx, .addTx tx ∈ ws → tx.Named) : ((Ledger.new g).writeAll ws).Agrees :=
  ((Indexed.new g).writeAll hn).agrees

def sampleWrites : List Write :=
  let request : Tx := { Sample.request.undefined with type := .compensationRequest, burntFee := 200 }
  let payment : Tx := { Sample.payment.undefined with type := .payTradeFee, burntFee := 10 }
  [.start Sample.first, .addTx Sample.supply.undefined, .addTx request, .addTx request,
    .addIssuance ⟨"r"⟩ 10, .start Sample.second, .addTx payment, .removeTip]

theorem named_sampleWrites : ∀ tx, .addTx tx ∈ sampleWrites → tx.Named := by
  intro tx htx
  simp only [sampleWrites, List.mem_cons, Write.addTx.injEq, reduceCtorEq, List.not_mem_nil,
    or_false, false_or] at htx
  rcases htx with rfl | rfl | rfl | rfl <;> decide

theorem agrees_sampleWrites :
    (∀ tx, .addTx tx ∈ sampleWrites → tx.Named) ∧
      ((Ledger.new Sample.genesis).writeAll sampleWrites).spentInfo? ⟨⟨"g"⟩, 1⟩ =
        some ⟨10, ⟨"r"⟩, 1⟩ ∧
      ((Ledger.new Sample.genesis).writeAll sampleWrites).isUnspent ⟨⟨"g"⟩, 0⟩ ∧
      ((Ledger.new Sample.genesis).writeAll sampleWrites).totalBurnt = 200 ∧
      ((Ledger.new Sample.genesis).writeAll sampleWrites).Agrees :=
  ⟨named_sampleWrites, by decide +kernel, by decide +kernel, by decide +kernel,
    agrees_of_writes Sample.genesis sampleWrites named_sampleWrites⟩

end Ledger

end DaoLedger
