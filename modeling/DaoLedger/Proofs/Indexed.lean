import DaoLedger.Proofs.Indices
/-!
Ledgers whose indices are those of their stored transactions. Main statements: every write keeps
this, and two such ledgers with the same chain have the same indices. So removing the tip gives
back the indices from before it was opened.
-/
namespace DaoLedger

def txsOf (chain : List Block) : List Tx := chain.reverse.flatMap (·.txs)

theorem txsOf_cons (b : Block) (older : List Block) : txsOf (b :: older) = txsOf older ++ b.txs := by
  simp [txsOf]

namespace Ledger
variable {l l' : Ledger}

theorem storedTxs_eq (l : Ledger) : l.storedTxs = txsOf l.chain := rfl

structure Indexed (l : Ledger) : Prop where
  distinct : Distinct l.storedTxs
  indices : l.indices = .of l.storedTxs
  heights : ∀ b ∈ l.chain, ∀ tx ∈ b.txs, tx.blockHeight = b.height

theorem storedTxs_opened (l : Ledger) (raw : RawBlock) : (l.opened raw).storedTxs = l.storedTxs := by
  rw [storedTxs_eq, opened, txsOf_cons]
  exact List.append_nil _

theorem misfit?_eq_none {raw : RawBlock} :
    l.misfit? raw = none ↔ l.genesis.blockHeight ≤ raw.height ∧
      ∀ tip, l.chain.head? = some tip → tip.height < raw.height ∧ raw.previousHash = tip.hash := by
  unfold misfit?
  by_cases hg : raw.height < l.genesis.blockHeight
  · simp [hg, UInt32.not_le.2 hg]
  · cases hc : l.chain with
    | nil => simp [hg, UInt32.not_lt.1 hg]
    | cons tip older =>
      by_cases hle : raw.height ≤ tip.height
      · simp [hg, hle, UInt32.not_lt.2 hle]
      · by_cases hp : raw.previousHash = tip.hash
        · simp [hg, hle, hp, UInt32.not_lt.1 hg, UInt32.not_le.1 hle]
        · simp [hg, hle, hp]

theorem height_of_misfit? {raw : RawBlock} {tip : Block} (h : l.misfit? raw = none)
    (hc : l.chain.head? = some tip) : tip.height < raw.height :=
  ((misfit?_eq_none.1 h).2 tip hc).1

theorem start_eq_ok {raw : RawBlock} :
    l.start raw = .ok l' ↔
      l.misfit? raw = none ∧ l.endless raw = false ∧ l' = l.opened raw := by
  unfold start
  cases l.misfit? raw <;> cases l.endless raw <;> simp [eq_comm]

theorem start_eq_never {raw : RawBlock} :
    l.start raw = .never ↔ l.misfit? raw = none ∧ l.endless raw := by
  unfold start
  cases l.misfit? raw <;> cases l.endless raw <;> simp

namespace Indexed

theorem reflects (h : l.Indexed) : l.indices.Reflects l.storedTxs := by
  rw [h.indices]
  exact h.distinct.reflects

theorem indices_eq (h : l.Indexed) (h' : l'.Indexed) (hc : l'.chain = l.chain) :
    l'.indices = l.indices := by
  rw [h.indices, h'.indices, storedTxs_eq, storedTxs_eq, hc]

theorem new (g : Genesis) : (Ledger.new g).Indexed where
  distinct := ⟨.nil, by simp [storedTxs, blocks, Ledger.new]⟩
  indices := rfl
  heights := by simp [Ledger.new]

theorem of_same (h : l.Indexed) (hc : txsOf l'.chain = txsOf l.chain)
    (hi : l'.indices = l.indices)
    (hh : ∀ b ∈ l'.chain, ∀ tx ∈ b.txs, tx.blockHeight = b.height) : l'.Indexed := by
  have hs : l'.storedTxs = l.storedTxs := hc
  exact ⟨hs ▸ h.distinct, by rw [hi, hs, h.indices], hh⟩

theorem getElem?_txs (h : l.Indexed) (id : TxId) :
    l.txs[id]? = l.storedTxs.find? (·.id = id) :=
  h.reflects.tx id

theorem mem_txs (h : l.Indexed) {id : TxId} : id ∈ l.txs ↔ id ∈ l.storedTxs.map Tx.id := by
  rw [← Std.ExtTreeMap.isSome_getElem?_iff_mem, h.getElem?_txs, List.find?_isSome, List.mem_map]
  simp

theorem mem_of_txType (h : l.Indexed) {id : TxId} {type : TxType}
    (ht : l.txTypes[id]? = some type) : id ∈ l.txs := by
  have hfind : l.txTypes[id]? = (l.storedTxs.find? (·.id = id)).map (·.type) :=
    h.reflects.txType id
  rw [ht, ← h.getElem?_txs] at hfind
  obtain ⟨tx, htx, -⟩ := Option.map_eq_some_iff.1 hfind.symm
  exact Std.ExtTreeMap.isSome_getElem?_iff_mem.1 (by rw [htx]; rfl)

/-! ### Opening a block -/

theorem opened (h : l.Indexed) (raw : RawBlock) : (l.opened raw).Indexed := by
  refine h.of_same ?_ rfl ?_
  · simp [Ledger.opened, txsOf_cons, RawBlock.opened]
  · intro b hb tx htx
    rcases List.mem_cons.1 hb with rfl | hb
    · simp [RawBlock.opened] at htx
    · exact h.heights b hb tx htx

theorem start (h : l.Indexed) {raw : RawBlock} (hs : l.start raw = .ok l') : l'.Indexed := by
  obtain ⟨-, -, rfl⟩ := start_eq_ok.1 hs
  exact h.opened raw

end Indexed

/-! ### Writing to the tip -/

def kept (l : Ledger) : Except LedgerError Ledger → Ledger
  | .ok l' => l'
  | .error _ => l

theorem kept_cases {l : Ledger} {P : Ledger → Prop} {r : Except LedgerError Ledger} (h : P l)
    (hr : ∀ l', r = .ok l' → P l') : P (l.kept r) := by
  cases r with
  | error e => exact h
  | ok l' => exact hr l' rfl

def started (l : Ledger) (raw : RawBlock) : Ledger := (l.start raw).toOption.getD l

theorem started_cases {l : Ledger} {raw : RawBlock} {P : Ledger → Prop} (h : P l)
    (hs : ∀ l', l.start raw = .ok l' → P l') : P (l.started raw) := by
  unfold started
  cases hr : l.start raw with
  | ok l' => exact hs l' hr
  | error e => exact h
  | never => exact h

/-- Whether the tip takes a transaction: it has its height, and the id is new. -/
def Takes (l : Ledger) (tx : Tx) : Prop :=
  (∃ tip, l.chain.head? = some tip ∧ tx.blockHeight = tip.height) ∧ tx.id ∉ l.txs

def written (l : Ledger) (tx : Tx) : Ledger :=
  { l.entered tx tx.blockHeight with
    chain := l.chain.modifyHead fun tip => { tip with txs := tip.txs ++ [tx] } }

theorem addTx_eq_ok {tx : Tx} :
    l.addTx tx = .ok l' ↔ l.Takes tx ∧ l' = l.written tx := by
  unfold addTx written Takes
  cases hc : l.chain with
  | nil => simp
  | cons tip older =>
    simp only [List.head?_cons, Option.some.injEq, exists_eq_left', List.modifyHead_cons]
    split
    · next hh => simp [hh]
    · next hh =>
      rw [not_not] at hh
      split
      · next hm => simp [hm]
      · next hm => simp [hm, hh, eq_comm]

def noted (l : Ledger) (event : Event) : Ledger :=
  { l with
    chain := l.chain.modifyHead fun tip => { tip with events := tip.events ++ [event] }
    paramChanges := l.paramChanges ++ event.paramChange?.toList }

theorem addEvent_eq_ok {event : Event} :
    l.addEvent event = .ok l' ↔
      outOfRange? event = none ∧ l.chain ≠ [] ∧ l' = l.noted event := by
  unfold addEvent noted
  cases ho : outOfRange? event <;> cases hc : l.chain <;> simp [eq_comm]

theorem storedTxs_of_addEvent {event : Event} (ha : l.addEvent event = .ok l') :
    l'.storedTxs = l.storedTxs := by
  obtain ⟨-, hne, rfl⟩ := addEvent_eq_ok.1 ha
  obtain ⟨tip, older, hc⟩ := List.exists_cons_of_ne_nil hne
  simp [storedTxs_eq, noted, hc, txsOf_cons]

theorem addIssuance_eq_ok {id : TxId} {height : UInt32} :
    l.addIssuance id height = .ok l' ↔ l.txTypes[id]? = some .compensationRequest ∧
      l' = { l with issuances := l.issuances.insert id height } := by
  unfold addIssuance
  split
  · next h => simp [h, eq_comm]
  · next hne h => simp [h, show _ ≠ TxType.compensationRequest from hne]
  · next h => simp [h]

theorem txsOf_modifyHead {chain : List Block} {f : Block → Block} {more : List Tx} {tip : Block}
    (hc : chain.head? = some tip) (hf : (f tip).txs = tip.txs ++ more) :
    txsOf (chain.modifyHead f) = txsOf chain ++ more := by
  cases chain with
  | nil => cases hc
  | cons b older =>
    cases hc
    rw [List.modifyHead_cons, txsOf_cons, txsOf_cons, hf, List.append_assoc]

theorem forall_mem_modifyHead {α : Type} {P : α → Prop} {f : α → α} {xs : List α}
    (h : ∀ x ∈ xs, P x) (hf : ∀ x, xs.head? = some x → P (f x)) : ∀ y ∈ xs.modifyHead f, P y := by
  cases xs with
  | nil => exact h
  | cons x xs => exact List.forall_mem_cons.2 ⟨hf x rfl, (List.forall_mem_cons.1 h).2⟩

namespace Indexed

theorem addTx (h : l.Indexed) {tx : Tx} (hn : tx.Named) (ha : l.addTx tx = .ok l') :
    l'.Indexed := by
  obtain ⟨⟨⟨tip, hc, hh⟩, hf⟩, rfl⟩ := addTx_eq_ok.1 ha
  have hs : (l.written tx).storedTxs = l.storedTxs ++ [tx] := txsOf_modifyHead hc rfl
  have hfresh : tx.id ∉ l.storedTxs.map Tx.id := mt h.mem_txs.2 hf
  refine ⟨?_, ?_, ?_⟩
  · rw [hs]
    exact distinct_append_one.2 ⟨h.distinct, hfresh, hn⟩
  · rw [hs, Indices.of_append_one, ← h.indices]
    rfl
  · refine forall_mem_modifyHead h.heights fun tip' hc' t ht => ?_
    rcases List.mem_append.1 ht with ht | ht
    · exact h.heights tip' (List.mem_of_mem_head? hc') t ht
    · have he : tip = tip' := Option.some.inj (hc.symm.trans hc')
      rw [List.mem_singleton.1 ht, hh, he]

theorem addEvent (h : l.Indexed) {event : Event} (ha : l.addEvent event = .ok l') :
    l'.Indexed := by
  have hs := storedTxs_of_addEvent ha
  obtain ⟨-, -, rfl⟩ := addEvent_eq_ok.1 ha
  exact h.of_same hs rfl <| forall_mem_modifyHead h.heights fun tip htip =>
    h.heights tip (List.mem_of_mem_head? htip)

theorem addIssuance (h : l.Indexed) {id : TxId} {height : UInt32}
    (ha : l.addIssuance id height = .ok l') : l'.Indexed := by
  obtain ⟨-, rfl⟩ := addIssuance_eq_ok.1 ha
  exact h.of_same rfl rfl h.heights

end Indexed

/-! ### Removing the tip -/

theorem withdrawAll_rest (l : Ledger) (block : Block) :
    (l.withdrawAll block).genesis = l.genesis ∧ (l.withdrawAll block).chain = l.chain ∧
      (l.withdrawAll block).cycles = l.cycles ∧
      (l.withdrawAll block).paramChanges = l.paramChanges := by
  have key (txs : List Tx) :
      (txs.foldr (fun tx l => l.withdrawn block tx) l).genesis = l.genesis ∧
        (txs.foldr (fun tx l => l.withdrawn block tx) l).chain = l.chain ∧
        (txs.foldr (fun tx l => l.withdrawn block tx) l).cycles = l.cycles ∧
        (txs.foldr (fun tx l => l.withdrawn block tx) l).paramChanges = l.paramChanges := by
    induction txs with
    | nil => exact ⟨rfl, rfl, rfl, rfl⟩
    | cons tx txs ih => exact ih
  exact key block.txs

theorem removeTip_rest {block : Block} (hr : l.removeTip = some (block, l')) :
    ∃ older, l.chain = block :: older ∧ l'.chain = older ∧ l'.genesis = l.genesis ∧
      l'.cycles = cyclesBelow older l.cycles ∧
      l'.paramChanges =
        l.paramChanges.filter (· ∉ block.events.filterMap Event.paramChange?) := by
  cases hc : l.chain with
  | nil => simp [removeTip, hc] at hr
  | cons b older =>
    obtain ⟨hg, hchain, hcycles, hparams⟩ := withdrawAll_rest { l with chain := older } b
    simp only [removeTip, hc, Option.some.injEq, Prod.mk.injEq] at hr
    obtain ⟨rfl, rfl⟩ := hr
    exact ⟨older, rfl, hchain, hg, by rw [hcycles], by rw [hparams]⟩

theorem storedTxs_of_removeTip {block : Block} (hr : l.removeTip = some (block, l')) :
    l.storedTxs = l'.storedTxs ++ block.txs := by
  obtain ⟨older, hc, hchain, -⟩ := removeTip_rest hr
  rw [storedTxs_eq, storedTxs_eq, hc, hchain, txsOf_cons]

theorem issuances_withdrawAll (l : Ledger) (block : Block) (id : TxId) :
    (l.withdrawAll block).issuances[id]? =
      if id ∈ block.txs.map Tx.id then none else l.issuances[id]? := by
  have key (txs : List Tx) :
      (txs.foldr (fun tx l => l.withdrawn block tx) l).issuances[id]? =
        if id ∈ txs.map Tx.id then none else l.issuances[id]? := by
    induction txs with
    | nil => simp
    | cons tx txs ih =>
      have hw : ((tx :: txs).foldr (fun tx l => l.withdrawn block tx) l).issuances =
          (txs.foldr (fun tx l => l.withdrawn block tx) l).issuances.erase tx.id := rfl
      rw [hw, Std.ExtTreeMap.getElem?_erase, ih]
      by_cases he : tx.id = id
      · simp [he]
      · simp [he, Ne.symm he]
  exact key block.txs

/-- In a ledger with all transactions up to some of `block` entered, every output that they made
is found. -/
theorem sourceOutput?_eq {block : Block} {older seen rest : List Tx}
    (hd : Distinct (older ++ block.txs)) (hb : block.txs = seen ++ rest)
    (ht : ∀ id : TxId, l.txs[id]? = (older ++ seen).find? (·.id = id)) {key : OutputKey}
    {o : Output} (ho : outputIn? (older ++ seen) key = some o) :
    l.sourceOutput? block key = some o := by
  obtain ⟨tx, htx, ho⟩ := Option.bind_eq_some_iff.1 ho
  have hmem : tx ∈ older ++ block.txs ∧ tx.id = key.txId := by
    refine ⟨?_, by simpa using List.find?_some htx⟩
    rw [hb, ← List.append_assoc]
    exact List.mem_append_left _ (List.mem_of_find?_eq_some htx)
  have hfound : (block.txs.find? (·.id = key.txId)).or l.txs[key.txId]? = some tx := by
    cases hf : block.txs.find? (·.id = key.txId) with
    | none => rw [Option.none_or, ht, htx]
    | some t =>
      -- Only one transaction has the id, so the one in the block is the one that was entered.
      have hmem' : t ∈ older ++ block.txs ∧ t.id = key.txId :=
        ⟨List.mem_append_right _ (List.mem_of_find?_eq_some hf), by simpa using List.find?_some hf⟩
      rw [Option.some_or, ← hd.find?_eq_some.2 hmem, ← hd.find?_eq_some.2 hmem']
  rw [sourceOutput?, hfound]
  exact ho

/-- Withdrawing transactions of `block` from the last one entered down to the first. -/
theorem indices_withdrawn {block : Block} {older seen rest : List Tx}
    (hd : Distinct (older ++ block.txs)) (hb : block.txs = seen ++ rest)
    (hi : l.indices = .of (older ++ seen)) :
    (seen.foldr (fun tx l => l.withdrawn block tx) l).indices = .of older := by
  induction seen using List.reverseRecOn generalizing l rest with
  | nil => simpa using hi
  | append_singleton seen tx ih =>
    rw [List.foldr_append, List.foldr_cons, List.foldr_nil]
    have hd' : Distinct ((older ++ seen) ++ [tx]) := by
      rw [hb, ← List.append_assoc, ← List.append_assoc] at hd
      exact hd.of_append
    obtain ⟨hdist, hfresh, hnamed⟩ := distinct_append_one.1 hd'
    have hb' : block.txs = seen ++ (tx :: rest) := by simp [hb]
    refine ih hb' ?_
    have hr := hd'.reflects
    rw [List.append_assoc, ← hi] at hr
    have hw : (l.withdrawn block tx).indices = l.indices.withdraw (l.sourceOutput? block) tx := rfl
    rw [hw, hi, ← List.append_assoc, Indices.of_append_one]
    refine hdist.reflects.withdraw_enter hfresh hnamed fun key o ho => ?_
    refine sourceOutput?_eq hd hb hr.tx ?_
    rw [← List.append_assoc]
    exact outputIn?_append ho

theorem indices_withdrawAll {block : Block} {older : List Block} (h : l.Indexed)
    (hc : l.chain = block :: older) :
    (withdrawAll { l with chain := older } block).indices = .of (txsOf older) := by
  have hs : l.storedTxs = txsOf older ++ block.txs := by rw [storedTxs_eq, hc, txsOf_cons]
  have hb : block.txs = block.txs ++ [] := (List.append_nil _).symm
  exact indices_withdrawn (hs ▸ h.distinct) hb (hs ▸ h.indices)

/-- Removing the tip: the other blocks keep their indices, and the rest is cut back. -/
theorem removeTip_eq {block : Block} {older : List Block} (h : l.Indexed)
    (hc : l.chain = block :: older) :
    ∃ l', l.removeTip = some (block, l') ∧ l'.Indexed ∧ l'.chain = older ∧
      l'.genesis = l.genesis ∧ l'.cycles = cyclesBelow older l.cycles ∧
      l'.paramChanges = l.paramChanges.filter (· ∉ block.events.filterMap Event.paramChange?) ∧
      l'.issuances = (withdrawAll { l with chain := older } block).issuances.filter
        fun _ h => h < block.height := by
  obtain ⟨hg, hchain, hcycles, hparams⟩ := withdrawAll_rest { l with chain := older } block
  have hd : Distinct (txsOf older) := by
    have := h.distinct
    rw [storedTxs_eq, hc, txsOf_cons] at this
    exact this.of_append
  have hi := indices_withdrawAll h hc
  simp only [removeTip, hc, Option.some.injEq, Prod.mk.injEq, true_and, exists_eq_left']
  refine ⟨⟨?_, ?_, ?_⟩, hchain, hg, ?_, ?_, trivial⟩
  · rw [storedTxs_eq, hchain]
    exact hd
  · rw [storedTxs_eq, hchain]
    exact hi
  · rw [hchain]
    intro b hb
    exact h.heights b (hc ▸ List.mem_cons_of_mem _ hb)
  · rw [hcycles]
  · rw [hparams]

theorem Indexed.removeTip (h : l.Indexed) {block : Block} (hr : l.removeTip = some (block, l')) :
    l'.Indexed := by
  cases hc : l.chain with
  | nil => simp [Ledger.removeTip, hc] at hr
  | cons b older =>
    obtain ⟨l₁, hr₁, hi, -⟩ := removeTip_eq h hc
    rw [hr₁, Option.some.injEq, Prod.mk.injEq] at hr
    exact hr.2 ▸ hi

end Ledger

end DaoLedger
