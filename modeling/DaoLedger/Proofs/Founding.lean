import DaoLedger.Proofs.Coherence
import DaoLedger.Proofs.Replay
/-!
Ledgers of arbitrary blocks, whose outputs need not be named by their transactions. Main statement:
the genesis transaction is the first stored transaction and no other one is typed as it, after any
run of changes.
-/
namespace DaoLedger

/-! ### Where keys come from -/

def keysOf (txs : List Tx) : List OutputKey := (outputsOf txs).map Output.key

/-- A transaction spends a key that was entered before it, with an input that names it. -/
def SpendsKey (txs : List Tx) (key : OutputKey) (info : SpentInfo) : Prop :=
  ∃ older tx newer, txs = older ++ tx :: newer ∧ key ∈ keysOf older ∧ tx.id = info.txId ∧
    (tx.inputs[info.inputIndex]?).map Input.source = some key

structure Coins.Traced (coins : Coins) (txs : List Tx) : Prop where
  unspent : ∀ key ∈ coins.unspent, key ∈ keysOf txs
  spent : ∀ (key : OutputKey) info, coins.spent[key]? = some info → SpendsKey txs key info

section
variable {txs : List Tx} {tx : Tx} {key : OutputKey}

theorem mem_keysOf_append_one :
    key ∈ keysOf (txs ++ [tx]) ↔ key ∈ keysOf txs ∨ key ∈ tx.outputs.map Output.key := by
  rw [keysOf, outputsOf_append_one, List.map_append, List.mem_append, keysOf]

theorem SpendsKey.append {info : SpentInfo} (h : SpendsKey txs key info) (more : List Tx) :
    SpendsKey (txs ++ more) key info := by
  obtain ⟨older, t, newer, rfl, hrest⟩ := h
  exact ⟨older, t, newer ++ more, by simp, hrest⟩

end

namespace Coins
variable {coins : Coins} {txs : List Tx} {tx : Tx} {key : OutputKey}

theorem mem_unspent_createAll (outputs : List Output) :
    key ∈ (coins.createAll outputs).unspent ↔
      key ∈ outputs.map Output.key ∨ key ∈ coins.unspent := by
  rw [createAll_eq]
  dsimp only
  generalize coins.unspent = m
  induction outputs generalizing m with
  | nil => simp
  | cons o outputs ih =>
    rw [List.foldl_cons, ih, Std.ExtTreeMap.mem_insert, Std.LawfulEqCmp.compare_eq_iff_eq]
    simp only [List.map_cons, List.mem_cons, eq_comm (a := key)]
    tauto

theorem Traced.empty : Coins.empty.Traced [] where
  unspent key h := by simp [Coins.empty] at h
  spent key info h := by simp [Coins.empty] at h

theorem Traced.enter (h : coins.Traced txs) (height : UInt32) :
    ((coins.spendAll height tx.id 0 tx.inputs).createAll tx.outputs).Traced (txs ++ [tx]) where
  unspent key hk := by
    rw [mem_unspent_createAll] at hk
    rw [mem_keysOf_append_one]
    rcases hk with hk | hk
    · exact .inr hk
    · rw [← Std.ExtTreeMap.isSome_getElem?_iff_mem, unspent_spendAll] at hk
      split at hk
      · cases hk
      · exact .inl (h.unspent key (Std.ExtTreeMap.isSome_getElem?_iff_mem.1 hk))
  spent key info hk := by
    rw [spent_createAll, spent_spendAll] at hk
    split at hk
    · next hu =>
      cases hj : spender? tx.inputs key with
      | none =>
        rw [hj, Option.map_none, Option.none_or] at hk
        exact (h.spent key info hk).append [tx]
      | some j =>
        rw [hj, Option.map_some, Option.some_or, Option.some.injEq] at hk
        obtain ⟨hlt, hsource, -⟩ := List.findIdx?_eq_some_iff_getElem.1 hj
        refine ⟨txs, tx, [], rfl, h.unspent key hu, by rw [← hk], ?_⟩
        rw [← hk, Nat.zero_add, List.getElem?_eq_getElem hlt, Option.map_some]
        exact congrArg some (by simpa using hsource)
    · exact (h.spent key info hk).append [tx]

/-- The inputs of the last transaction took keys of the others, so taking them back needs no more
than those. -/
theorem Traced.withdraw (h : coins.Traced (txs ++ [tx])) (hid : tx.id ∉ txs.map Tx.id)
    (source? : OutputKey → Option Output) :
    ((coins.forgetAll tx.outputs).unspendAll source? tx.id 0 tx.inputs).Traced txs := by
  have hspent : (coins.forgetAll tx.outputs).spent = coins.spent := by rw [forgetAll_eq]
  have hunspent (key : OutputKey) : (coins.forgetAll tx.outputs).unspent[key]? =
      if key ∈ tx.outputs.map Output.key then none else coins.unspent[key]? := by
    rw [forgetAll_eq, getElem?_eraseAll]
  constructor
  · intro key hk
    rw [← Std.ExtTreeMap.isSome_getElem?_iff_mem] at hk
    by_cases hfrom : (coins.forgetAll tx.outputs).SpentFrom tx.id 0 tx.inputs key
    · obtain ⟨j, input, -, -, hby⟩ := hfrom
      obtain ⟨info, hinfo, htx, -⟩ := spentBy_iff.1 hby
      obtain ⟨older, t, newer, hs, hkey, ht, -⟩ := h.spent key info (hspent ▸ hinfo)
      rcases append_one_eq_append_cons hs with ⟨rfl, -⟩ | ⟨newer', hs⟩
      · exact hkey
      · refine absurd ?_ hid
        rw [← htx, ← ht, hs]
        simp
    · rw [(unspendAll_of_not_spentFrom hfrom).2, hunspent] at hk
      split at hk
      · cases hk
      · next hown =>
        have hkey := h.unspent key (Std.ExtTreeMap.isSome_getElem?_iff_mem.1 hk)
        exact (mem_keysOf_append_one.1 hkey).resolve_right hown
  · intro key info hk
    by_cases hfrom : (coins.forgetAll tx.outputs).SpentFrom tx.id 0 tx.inputs key
    · rw [(unspendAll_of_spentFrom hfrom).1] at hk
      cases hk
    · rw [(unspendAll_of_not_spentFrom hfrom).1, hspent] at hk
      obtain ⟨older, t, newer, hs, hkey, ht, hinput⟩ := h.spent key info hk
      rcases append_one_eq_append_cons hs with ⟨rfl, rfl⟩ | ⟨newer', hs⟩
      · obtain ⟨input, hget, hsource⟩ := Option.map_eq_some_iff.1 hinput
        refine absurd ⟨info.inputIndex, input, hget, hsource, ?_⟩ hfrom
        rw [Nat.zero_add]
        exact spentBy_iff.2 ⟨info, hspent ▸ hk, ht.symm, rfl⟩
      · exact ⟨older, t, newer', hs, hkey, ht, hinput⟩

end Coins

/-! ### Ledgers of arbitrary blocks -/

namespace Ledger
variable {l l' : Ledger} {tx : RawTx} {height : UInt32} {c : Classified}

/-- Ids are not repeated and known, and everything unspent or spent comes from a stored
transaction. This asks nothing of the blocks. -/
structure Traced (l : Ledger) : Prop where
  ids : (l.storedTxs.map Tx.id).Nodup
  txs : ∀ id, id ∈ l.txs ↔ id ∈ l.storedTxs.map Tx.id
  coins : l.coins.Traced l.storedTxs
  heights : ∀ b ∈ l.chain, ∀ tx ∈ b.txs, tx.blockHeight = b.height

namespace Traced

theorem new (g : Genesis) : (Ledger.new g).Traced where
  ids := .nil
  txs := by simp [Ledger.new, storedTxs, blocks]
  coins := .empty
  heights := by simp [Ledger.new]

theorem opened (h : l.Traced) (raw : RawBlock) : (l.opened raw).Traced where
  ids := by rw [storedTxs_opened]; exact h.ids
  txs := by rw [storedTxs_opened]; exact h.txs
  coins := by rw [storedTxs_opened]; exact h.coins
  heights := List.forall_mem_cons.2 ⟨by simp [RawBlock.opened], h.heights⟩

theorem adopted (h : l.Traced) (ht : l.Takes c.tx) : (l.adopted c).Traced := by
  obtain ⟨tip, older, hc, hh⟩ := ht.tip
  have hfresh : c.tx.id ∉ l.storedTxs.map Tx.id := mt (h.txs _).2 ht.2
  constructor
  · rw [storedTxs_adopted ht, List.map_append]
    refine List.nodup_append.2 ⟨h.ids, List.nodup_singleton _, fun id hid id' hid' he => ?_⟩
    rw [he, List.mem_singleton.1 hid'] at hid
    exact hfresh hid
  · intro id
    rw [storedTxs_adopted ht, List.map_append, List.mem_append, ← h.txs, Ledger.adopted, entered]
    dsimp only
    rw [Std.ExtTreeMap.mem_insert, Std.LawfulEqCmp.compare_eq_iff_eq]
    simp only [List.map_cons, List.map_nil, List.mem_singleton, eq_comm, or_comm]
  · rw [storedTxs_adopted ht]
    exact h.coins.enter c.tx.blockHeight
  · rw [tip_adopted hc]
    refine List.forall_mem_cons.2 ⟨fun t htx => ?_, fun b hb => h.heights b ?_⟩
    · rcases List.mem_append.1 htx with htx | htx
      · exact h.heights tip (by rw [hc]; exact List.mem_cons_self) t htx
      · rw [List.mem_singleton.1 htx, hh]
    · rw [hc]
      exact List.mem_cons_of_mem _ hb

theorem withdrawn {block : Block} {older seen : List Tx}
    (hids : ((older ++ seen).map Tx.id).Nodup)
    (htxs : ∀ id, id ∈ l.txs ↔ id ∈ (older ++ seen).map Tx.id)
    (hcoins : l.coins.Traced (older ++ seen)) :
    let l' := seen.foldr (fun tx l => l.withdrawn block tx) l
    (∀ id, id ∈ l'.txs ↔ id ∈ older.map Tx.id) ∧ l'.coins.Traced older := by
  induction seen using List.reverseRecOn generalizing l with
  | nil =>
    rw [List.append_nil] at htxs hcoins
    exact ⟨htxs, hcoins⟩
  | append_singleton seen tx ih =>
    rw [← List.append_assoc] at hids htxs hcoins
    rw [List.map_append, List.nodup_append] at hids
    have hfresh : tx.id ∉ (older ++ seen).map Tx.id := fun hm => hids.2.2 _ hm tx.id (by simp) rfl
    rw [List.foldr_append]
    refine ih hids.1 (fun id => ?_) (hcoins.withdraw hfresh _)
    rw [List.foldr_cons, List.foldr_nil, Ledger.withdrawn]
    dsimp only
    rw [Std.ExtTreeMap.mem_erase, htxs, List.map_append, List.mem_append, ne_eq,
      Std.LawfulEqCmp.compare_eq_iff_eq]
    grind

theorem removed (h : l.Traced) {block : Block} (hr : l.removeTip = some (block, l')) :
    l'.Traced := by
  obtain ⟨older, hc, hchain, -⟩ := removeTip_rest hr
  have hs : l.storedTxs = txsOf older ++ block.txs := by rw [storedTxs_eq, hc, txsOf_cons]
  have hs' : l'.storedTxs = txsOf older := by rw [storedTxs_eq, hchain]
  have hids := hs ▸ h.ids
  obtain ⟨htxs, hcoins⟩ := @withdrawn { l with chain := older } block _ _ hids (hs ▸ h.txs)
    (hs ▸ h.coins)
  have hsame : l'.txs = (withdrawAll { l with chain := older } block).txs ∧
      l'.coins = (withdrawAll { l with chain := older } block).coins := by
    simp only [removeTip, hc, Option.some.injEq, Prod.mk.injEq, true_and] at hr
    rw [← hr]
    exact ⟨rfl, rfl⟩
  rw [List.map_append] at hids
  constructor
  · rw [hs']
    exact (List.nodup_append.1 hids).1
  · rw [hs', hsame.1]
    exact htxs
  · rw [hs', hsame.2]
    exact hcoins
  · rw [hchain]
    exact fun b hb => h.heights b (hc ▸ List.mem_cons_of_mem _ hb)

theorem noted (h : l.Traced) {event : Event} (ha : l.addEvent event = .ok l') : l'.Traced := by
  have hs := storedTxs_of_addEvent ha
  obtain ⟨-, -, rfl⟩ := addEvent_eq_ok.1 ha
  refine ⟨hs ▸ h.ids, hs ▸ h.txs, hs ▸ h.coins, ?_⟩
  exact forall_mem_modifyHead h.heights fun tip htip => h.heights tip (List.mem_of_mem_head? htip)

theorem issued (h : l.Traced) {id : TxId} {height : UInt32} (ha : l.addIssuance id height = .ok l') :
    l'.Traced := by
  obtain ⟨-, rfl⟩ := addIssuance_eq_ok.1 ha
  exact ⟨h.ids, h.txs, h.coins, h.heights⟩

theorem storedTxs_ne_nil (h : l.Traced) {inputs : List Input} (hin : l.hasBsqInput inputs) :
    l.storedTxs ≠ [] := by
  intro hnil
  obtain ⟨key, o, hu⟩ := exists_unspent_of_hasBsqInput hin
  have hkey := h.coins.unspent key (Std.ExtTreeMap.isSome_getElem?_iff_mem.1 (by rw [hu]; rfl))
  rw [hnil] at hkey
  cases hkey

end Traced

end Ledger

/-! ### The genesis transaction -/

/-- A transaction has the configured id and height and makes the whole supply. -/
structure Genesis.Matches (g : Genesis) (tx : Tx) : Prop where
  id : tx.id = g.txId
  height : tx.blockHeight = g.blockHeight
  outputs : ∀ o ∈ tx.outputs, o.type = .genesisOutput
  supply : total (tx.outputs.map (·.amount)) = g.totalSupply.toNat

namespace Ledger
variable {l l' : Ledger} {tx : RawTx} {height : UInt32} {c : Classified} {g : Genesis}

theorem matches_of_classify (h : l.classify tx height = .ok c) (ht : c.tx.type = .genesis) :
    l.genesis.Matches c.tx := by
  obtain ⟨hg, hsum, rfl⟩ | ⟨-, -, rfl⟩ | ⟨-, -, rfl⟩ := classify_eq_ok.1 h
  · simp only [Genesis.names, Bool.and_eq_true, decide_eq_true_eq] at hg
    refine ⟨hg.1, hg.2, (coherent_genesis tx).genesis rfl, ?_⟩
    rw [← hsum, RawTx.outputSum, RawTx.genesis, List.map_map]
    rfl
  · exact ((type_classifySpending (by decide)).1 ht).elim
  · cases ht

/-- The first stored transaction is typed as genesis, and all that are match. -/
structure Founded (g : Genesis) (l : Ledger) : Prop where
  traced : l.Traced
  genesis : l.genesis = g
  first : ∀ tx, l.storedTxs.head? = some tx → tx.type = .genesis
  matching : ∀ tx ∈ l.storedTxs, tx.type = .genesis → g.Matches tx

namespace Founded

theorem new (g : Genesis) : Founded g (.new g) where
  traced := .new g
  genesis := rfl
  first := by simp [storedTxs, blocks, Ledger.new]
  matching := by simp [storedTxs, blocks, Ledger.new]

theorem cut (h : Founded g l) (ht : l'.Traced) (hg : l'.genesis = l.genesis)
    (hs : l'.storedTxs <+: l.storedTxs) : Founded g l' where
  traced := ht
  genesis := hg.trans h.genesis
  first tx hhead := by
    obtain ⟨more, hs⟩ := hs
    exact h.first tx (by rw [← hs, List.head?_append, hhead, Option.some_or])
  matching tx hm := h.matching tx (hs.subset hm)

theorem adopted (h : Founded g l) (hc : l.classify tx height = .ok c) (hb : c.isBsq)
    (ht : l.Takes c.tx) : Founded g (l.adopted c) where
  traced := h.traced.adopted ht
  genesis := h.genesis
  first t := by
    -- Nothing can be spent yet, so what is adopted first is the genesis transaction.
    refine head_adopted ht h.first fun hs => ?_
    obtain ⟨-, htx⟩ := genesis_of_classify hc hb fun hin => h.traced.storedTxs_ne_nil hin hs
    rw [htx]
    rfl
  matching t hm htype := by
    rw [storedTxs_adopted ht] at hm
    cases List.mem_append.1 hm with
    | inl hm => exact h.matching t hm htype
    | inr hm =>
      rw [List.mem_singleton.1 hm] at htype ⊢
      exact h.genesis ▸ matches_of_classify hc htype

theorem keeps (g : Genesis) (cs : List Change) : Keeps cs (Founded g) where
  opened l raw _ _ h :=
    h.cut (h.traced.opened raw) rfl (storedTxs_opened l raw ▸ List.prefix_rfl)
  adopted l raw tx c _ _ hc hb ht h := h.adopted hc hb ht
  removed l b l' hr h := by
    obtain ⟨-, -, -, hg, -⟩ := removeTip_rest hr
    refine h.cut (h.traced.removed hr) hg ?_
    rw [storedTxs_of_removeTip hr]
    exact List.prefix_append ..
  noted l change l' ha h := by
    have ht := h.traced.noted ha
    have hs := storedTxs_of_addEvent ha
    obtain ⟨-, -, rfl⟩ := addEvent_eq_ok.1 ha
    exact h.cut ht rfl (hs ▸ List.prefix_rfl)
  issued l id height l' ha h := by
    have ht := h.traced.issued ha
    obtain ⟨-, rfl⟩ := addIssuance_eq_ok.1 ha
    exact h.cut ht rfl List.prefix_rfl

end Founded

/-- After any run of any blocks the genesis transaction is the first stored one and no other, and
none but the configured one can ever be typed as it. -/
theorem founded_of_changes (g : Genesis) (cs : List Change) :
    let l := (Ledger.new g).changeAll cs
    l.storedTxs.filter (·.type = .genesis) = l.storedTxs.take 1 ∧
      (∀ b ∈ l.blocks, ∀ tx ∈ b.txs, tx.type = .genesis →
        tx.id = g.txId ∧ b.height = g.blockHeight ∧ (∀ o ∈ tx.outputs, o.type = .genesisOutput) ∧
          total (tx.outputs.map (·.amount)) = g.totalSupply.toNat) ∧
      ∀ (m : Ledger) (tx : RawTx) (height : UInt32) (c : Classified), m.genesis = g →
        m.classify tx height = .ok c → tx.id ≠ g.txId → c.tx.type ≠ .genesis := by
  intro l
  have h : Founded g l := (Founded.keeps g cs).changeAll (.new g)
  refine ⟨?_, fun b hb tx htx ht => ?_, fun m tx height c hg hc hid ht => ?_⟩
  · have hids := h.traced.ids
    cases hs : l.storedTxs with
    | nil => rfl
    | cons first rest =>
      have hfirst : first.type = .genesis := h.first first (by rw [hs]; rfl)
      have hid : first.id = g.txId := (h.matching first (by rw [hs]; simp) hfirst).id
      rw [hs, List.map_cons, List.nodup_cons] at hids
      have hrest : rest.filter (·.type = .genesis) = [] := by
        refine List.filter_eq_nil_iff.2 fun tx htx ht => hids.1 ?_
        have hm := h.matching tx (by rw [hs]; exact List.mem_cons_of_mem _ htx)
          (of_decide_eq_true ht)
        rw [hid, ← hm.id]
        exact List.mem_map_of_mem htx
      rw [List.filter_cons, if_pos (decide_eq_true hfirst), hrest, List.take_succ_cons,
        List.take_zero]
  · have hm := h.matching tx (List.mem_flatMap.2 ⟨b, hb, htx⟩) ht
    have hheight := h.traced.heights b (List.mem_reverse.1 hb) tx htx
    exact ⟨hm.id, hheight.symm.trans hm.height, hm.outputs, hm.supply⟩
  · have hm := matches_of_classify hc ht
    rw [hg] at hm
    exact hid ((id_of_classify hc).symm.trans hm.id)

end Ledger

end DaoLedger
