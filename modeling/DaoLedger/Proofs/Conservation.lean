import DaoLedger.Proofs.Circulation
import DaoLedger.Proofs.Replay
/-!
BSQ is made by the genesis transaction and by issuing, and by nothing else. Main statement: what
circulates and what was burnt are never more than what was minted and issued, and exactly as much
as long as nothing was issued.
-/
namespace DaoLedger

/-! ### What a transaction does to the unspent outputs -/

/-- Whether an output is unspent after the given transactions. -/
def liveIn (txs : List Tx) (o : Output) : Bool := o.key ∈ (Indices.of txs).coins.unspent

def live (p : Output → Bool) (txs : List Tx) : Nat :=
  sumOf (fun o => liveIn txs o && p o) (outputsOf txs)

def dead (p : Output → Bool) (txs : List Tx) : Nat :=
  sumOf (fun o => !liveIn txs o && p o) (outputsOf txs)

def taken (p : Output → Bool) (txs : List Tx) (inputs : List Input) : Nat :=
  sumOf (fun o => liveIn txs o && decide (o.key ∈ inputs.map Input.source) && p o) (outputsOf txs)

section
variable {txs : List Tx} {tx : Tx} {o : Output} (p q : Output → Bool)

theorem liveIn_append_one (hd : Distinct (txs ++ [tx])) (ho : o ∈ outputsOf txs) :
    liveIn (txs ++ [tx]) o = (liveIn txs o && !decide (o.key ∈ tx.inputs.map Input.source)) := by
  obtain ⟨hdist, hfresh, hnamed⟩ := distinct_append_one.1 hd
  have hid : o.key.txId ≠ tx.id := by
    obtain ⟨t, ht, hot⟩ := List.mem_flatMap.1 ho
    obtain ⟨i, hi⟩ := List.mem_iff_getElem?.1 hot
    have hot := ((hdist.named t ht).key_of_getElem? hi).1
    exact fun he => hfresh (List.mem_map.2 ⟨t, ht, hot.symm.trans he⟩)
  simp only [liveIn, ← Std.ExtTreeMap.isSome_getElem?_iff_mem, Indices.of_append_one,
    Indices.Reflects.getElem?_unspent_enter hnamed, if_neg hid, Option.none_or,
    Coins.spender?_isSome]
  by_cases hs : o.key ∈ tx.inputs.map Input.source
  · simp [hs]
  · simp [hs]

theorem liveIn_of_mem (hd : Distinct (txs ++ [tx])) (ho : o ∈ tx.outputs) :
    liveIn (txs ++ [tx]) o = true := by
  obtain ⟨-, -, hnamed⟩ := distinct_append_one.1 hd
  obtain ⟨i, hi⟩ := List.mem_iff_getElem?.1 ho
  have hid : o.key.txId = tx.id := (hnamed.key_of_getElem? hi).1
  rw [liveIn, decide_eq_true_eq, ← Std.ExtTreeMap.isSome_getElem?_iff_mem, Indices.of_append_one,
    Indices.Reflects.getElem?_unspent_enter hnamed, if_pos hid,
    (hnamed.output?_eq_some hid).2 ⟨ho, rfl⟩]
  rfl

theorem live_append_one (hd : Distinct (txs ++ [tx])) :
    live p (txs ++ [tx]) + taken p txs tx.inputs = live p txs + sumOf p tx.outputs := by
  have hold : sumOf (fun o => liveIn (txs ++ [tx]) o && p o) (outputsOf txs) =
      sumOf (fun o => liveIn txs o && p o && !decide (o.key ∈ tx.inputs.map Input.source))
        (outputsOf txs) :=
    sumOf_congr fun o ho => by rw [liveIn_append_one hd ho, Bool.and_right_comm]
  have hnew : sumOf (fun o => liveIn (txs ++ [tx]) o && p o) tx.outputs = sumOf p tx.outputs :=
    sumOf_congr fun o ho => by rw [liveIn_of_mem hd ho, Bool.true_and]
  have htaken : taken p txs tx.inputs =
      sumOf (fun o => liveIn txs o && p o && decide (o.key ∈ tx.inputs.map Input.source))
        (outputsOf txs) :=
    sumOf_congr fun o _ => Bool.and_right_comm ..
  have hsplit := sumOf_split (fun o => liveIn txs o && p o)
    (fun o => decide (o.key ∈ tx.inputs.map Input.source)) (outputsOf txs)
  rw [live, outputsOf_append_one, sumOf_append, hold, hnew, htaken, live, hsplit]
  omega

theorem dead_append_one (hd : Distinct (txs ++ [tx])) :
    dead p (txs ++ [tx]) = dead p txs + taken p txs tx.inputs := by
  have hnew : sumOf (fun o => !liveIn (txs ++ [tx]) o && p o) tx.outputs = 0 :=
    sumOf_eq_zero fun o ho => by simp [liveIn_of_mem hd ho]
  rw [dead, outputsOf_append_one, sumOf_append, hnew, Nat.add_zero,
    sumOf_split _ (liveIn txs) (outputsOf txs), Nat.add_comm]
  congr 1
  · refine sumOf_congr fun o ho => ?_
    rw [liveIn_append_one hd ho]
    cases liveIn txs o <;> simp
  · refine sumOf_congr fun o ho => ?_
    rw [liveIn_append_one hd ho]
    cases liveIn txs o <;> simp [Bool.and_comm]

end

/-! ### Transactions as the base chain delivers them -/

/-- Outputs are named by their transaction and position, no transaction names an output twice, and
none spends an OP_RETURN output. -/
structure ChainValid (txs : List RawTx) : Prop where
  named : ∀ tx ∈ txs, tx.Named
  sources : ∀ tx ∈ txs, (tx.inputs.map Input.source).Nodup
  payloads : ∀ tx ∈ txs, ∀ input ∈ tx.inputs, ∀ maker ∈ txs, ∀ o ∈ maker.outputs,
    o.payload.isSome → input.source ≠ ⟨o.txId, o.index⟩

instance (txs : List RawTx) : Decidable (ChainValid txs) :=
  decidable_of_iff
    ((∀ tx ∈ txs, tx.Named) ∧ (∀ tx ∈ txs, (tx.inputs.map Input.source).Nodup) ∧
      ∀ tx ∈ txs, ∀ input ∈ tx.inputs, ∀ maker ∈ txs, ∀ o ∈ maker.outputs,
        o.payload.isSome → input.source ≠ ⟨o.txId, o.index⟩)
    ⟨fun ⟨hn, hs, hp⟩ => ⟨hn, hs, hp⟩, fun ⟨hn, hs, hp⟩ => ⟨hn, hs, hp⟩⟩

def mintedBy (g : Genesis) (txs : List Tx) : Nat :=
  if g.txId ∈ txs.map Tx.id then g.totalSupply.toNat else 0

namespace Ledger
variable {l l' : Ledger} {valid : List RawTx} {g : Genesis} {tx : RawTx} {height : UInt32}
  {c : Classified}

/-- OP_RETURN outputs with an accepted payload come from the OP_RETURN outputs of some
transactions. -/
def PayloadsFrom (l : Ledger) (valid : List RawTx) : Prop :=
  ∀ o ∈ outputsOf l.storedTxs, o.type.isOpReturn →
    ∃ maker ∈ valid, ∃ q ∈ maker.outputs, q.payload.isSome ∧ o.key = ⟨q.txId, q.index⟩

theorem carriesBsq_eq (l : Ledger) (o : Output) :
    l.carriesBsq o = (o.type.holds || l.issued o || o.type.isOpReturn) := by
  cases ht : o.type <;>
    simp [carriesBsq, issued, OutputType.holds, OutputType.isOpReturn, ht]

theorem issued_eq_false (hnone : l.issuances = ∅) (o : Output) : l.issued o = false := by
  simp [issued, isIssued, hnone]

theorem isUnspent_eq (hi : l.Indexed) (o : Output) : l.isUnspent o.key = liveIn l.storedTxs o := by
  have hc : l.coins = (Indices.of l.storedTxs).coins := congrArg Indices.coins hi.indices
  rw [isUnspent, liveIn, hc]

/-- Without OP_RETURN outputs among them, inputs bring what they hold and what was issued. -/
theorem inputBudget_eq_taken (hi : l.Indexed) (hp : l.PayloadsFrom valid)
    (hv : ChainValid valid) (hm : tx ∈ valid) :
    l.inputBudget tx.inputs =
      taken (·.type.holds) l.storedTxs tx.inputs + taken l.issued l.storedTxs tx.inputs := by
  rw [hi.inputBudget_eq (hv.sources tx hm), taken, taken,
    sumOf_split _ (fun o => o.type.holds) (outputsOf l.storedTxs)]
  congr 1
  · refine sumOf_congr fun o _ => ?_
    rw [isUnspent_eq hi, carriesBsq_eq]
    cases o.type.holds <;> simp
  · refine sumOf_congr fun o ho => ?_
    rw [isUnspent_eq hi, carriesBsq_eq]
    by_cases hs : o.key ∈ tx.inputs.map Input.source
    · -- An input that named an accepted payload would spend an OP_RETURN output.
      have hop : o.type.isOpReturn = false := by
        refine Bool.eq_false_iff.2 fun hop => ?_
        obtain ⟨maker, hmaker, q, hq, hsome, hkey⟩ := hp o ho hop
        obtain ⟨input, hinput, hsource⟩ := List.mem_map.1 hs
        exact hv.payloads tx hm input hinput maker hmaker q hq hsome (hsource.trans hkey)
      have hissued : l.issued o → o.type.holds = false := fun h => by
        simp only [issued, Bool.and_eq_true, decide_eq_true_eq] at h
        rw [h.1]
        rfl
      cases hh : o.type.holds
      · simp [hop, hs]
      · have hnot : l.issued o = false := Bool.eq_false_iff.2 fun h => by simp [hissued h] at hh
        simp [hnot]
    · simp [hs]

theorem held_genesis (tx : RawTx) : held tx.genesis.outputs = tx.outputSum := by
  have hall (outputs : List RawOutput) :
      held (outputs.map RawOutput.genesis) = total (outputs.map RawOutput.amount) := by
    induction outputs with
    | nil => rfl
    | cons o outputs ih =>
      rw [List.map_cons, held_cons, ih, List.map_cons, total]
      rfl
  exact hall tx.outputs

theorem Rooted.genesis_mem (hr : l.Rooted) (hne : l.storedTxs ≠ []) :
    l.genesis.txId ∈ l.storedTxs.map Tx.id := by
  obtain ⟨first, rest, hs⟩ := List.exists_cons_of_ne_nil hne
  have hid : first.id = l.genesis.txId := hr first (by rw [hs]; rfl)
  rw [hs, ← hid]
  exact List.mem_cons_self

theorem held_add_burntFee (hi : l.Indexed) (hr : l.Rooted) (hp : l.PayloadsFrom valid)
    (hv : ChainValid valid) (hm : tx ∈ valid) (hc : l.classify tx height = .ok c)
    (hb : c.isBsq) (ht : l.Takes c.tx) :
    held c.tx.outputs + c.tx.burntFee + mintedBy l.genesis l.storedTxs =
      taken (·.type.holds) l.storedTxs c.tx.inputs + taken l.issued l.storedTxs c.tx.inputs +
        mintedBy l.genesis (l.storedTxs ++ [c.tx]) := by
  rcases classify_eq_ok.1 hc with ⟨hg, hsum, rfl⟩ | ⟨-, hin, rfl⟩ | ⟨-, -, rfl⟩
  · have hid : tx.id = l.genesis.txId := by
      simp only [Genesis.names, Bool.and_eq_true, decide_eq_true_eq] at hg
      exact hg.1
    have hnil : l.storedTxs = [] := by
      by_contra hne
      have hmem := hr.genesis_mem hne
      rw [← hid] at hmem
      exact ht.2 (hi.mem_txs.2 hmem)
    have hminted : mintedBy l.genesis [tx.genesis] = l.genesis.totalSupply.toNat :=
      if_pos (by simp [← hid, RawTx.genesis, RawTx.undefined])
    rw [hnil, List.nil_append, hminted, held_genesis, hsum]
    exact Nat.add_comm ..
  · have hs := l.spends_classifySpending (tx.placed height)
    have hmem := hr.genesis_mem (storedTxs_ne_nil_of_hasBsqInput hi hin)
    have hinputs : (l.classifySpending (tx.placed height)).tx.inputs = tx.inputs :=
      congrArg RawTx.inputs hs.raw
    have hbudget := inputBudget_eq_taken hi hp hv hm
    have hbalance := hs.balance
    have hminted : mintedBy l.genesis
        (l.storedTxs ++ [(l.classifySpending (tx.placed height)).tx]) =
          mintedBy l.genesis l.storedTxs := by
      rw [mintedBy, mintedBy, if_pos hmem, if_pos]
      rw [List.map_append]
      exact List.mem_append_left _ hmem
    rw [hminted, hinputs, ← hbudget, hbalance]
    rfl
  · simp [Classified.isBsq, RawTx.undefined] at hb

theorem PayloadsFrom.adopted (hp : l.PayloadsFrom valid) (hm : tx ∈ valid)
    (hc : l.classify tx height = .ok c) (ht : l.Takes c.tx) :
    (l.adopted c).PayloadsFrom valid := by
  unfold PayloadsFrom
  rw [storedTxs_adopted ht, outputsOf_append_one]
  intro o ho hop
  rcases List.mem_append.1 ho with ho | ho
  · exact hp o ho hop
  rcases classify_eq_ok.1 hc with ⟨-, -, rfl⟩ | ⟨-, -, rfl⟩ | ⟨-, -, rfl⟩
  · obtain ⟨q, -, rfl⟩ := List.mem_map.1 ho
    cases hop
  · have hspends := l.spends_classifySpending (tx.placed height)
    have hraw : o.toRawOutput ∈ (tx.placed height).outputs := by
      rw [← hspends.raw]
      exact List.mem_map_of_mem ho
    obtain ⟨q, hq, heq⟩ := List.mem_map.1 hraw
    have hpayload := hspends.opReturn o ho hop
    rw [← heq] at hpayload
    refine ⟨tx, hm, q, hq, hpayload, ?_⟩
    rw [Output.key, ← heq]
  · obtain ⟨q, -, rfl⟩ := List.mem_map.1 ho
    cases hop

/-! ### The invariant -/

def Balanced (g : Genesis) (txs : List Tx) : Prop :=
  live (·.type.holds) txs + (Indices.of txs).totalBurnt = mintedBy g txs

/-- With issuances, outputs that were spent before they were issued are missing from what
circulates. Without, the balance holds after each transaction, so that it survives removals. -/
structure Sound (g : Genesis) (valid : List RawTx) (l : Ledger) : Prop where
  indexed : l.Indexed
  rooted : l.Rooted
  genesis : l.genesis = g
  payloads : l.PayloadsFrom valid
  issuances : ∀ (id : TxId) h, l.issuances[id]? = some h → id ∈ l.txs ∧ h ≤ l.chainHeight
  bounded : live (·.type.holds) l.storedTxs + (Indices.of l.storedTxs).totalBurnt ≤
    mintedBy g l.storedTxs + dead l.issued l.storedTxs
  balanced : l.issuances = ∅ → ∀ txs, txs <+: l.storedTxs → Balanced g txs

namespace Sound

theorem new (g : Genesis) (valid : List RawTx) : Sound g valid (.new g) where
  indexed := .new g
  rooted := by simp [Rooted, storedTxs, blocks, Ledger.new]
  genesis := rfl
  payloads := by simp [PayloadsFrom, storedTxs, blocks, Ledger.new, outputsOf]
  issuances := by simp [Ledger.new]
  bounded := by
    have hnil : (Ledger.new g).storedTxs = [] := rfl
    rw [hnil]
    exact Nat.zero_le _
  balanced := by
    intro _ txs hpre
    have hnil : txs = [] := List.prefix_nil.1 hpre
    rw [hnil]
    rfl

theorem of_same (h : Sound g valid l) (hi : l'.Indexed) (hs : l'.storedTxs = l.storedTxs)
    (hg : l'.genesis = l.genesis) (hissued : l'.issuances = l.issuances)
    (hh : ∀ (id : TxId) h, l.issuances[id]? = some h → h ≤ l.chainHeight → h ≤ l'.chainHeight) :
    Sound g valid l' where
  indexed := hi
  rooted := by
    unfold Rooted
    rw [hs, hg]
    exact h.rooted
  genesis := hg.trans h.genesis
  payloads := by
    unfold PayloadsFrom
    rw [hs]
    exact h.payloads
  issuances := by
    intro id height hid
    rw [hissued] at hid
    obtain ⟨hm, hle⟩ := h.issuances id height hid
    refine ⟨?_, hh id height hid hle⟩
    rw [hi.mem_txs, hs, ← h.indexed.mem_txs]
    exact hm
  bounded := by
    have hsame : l'.issued = l.issued := by
      unfold issued isIssued
      rw [hissued]
    rw [hs, hsame]
    exact h.bounded
  balanced := by
    rw [hs, hissued]
    exact h.balanced

theorem opened (h : Sound g valid l) {raw : RawBlock} (hs : l.IssuedBelow raw.height) :
    Sound g valid (l.opened raw) :=
  h.of_same (h.indexed.opened raw) (storedTxs_opened l raw) rfl rfl
    fun id height hid _ => UInt32.le_of_lt (hs id height hid).2

theorem issuedBelow (h : Sound g valid l) {raw : RawBlock} (hm : l.misfit? raw = none) :
    l.IssuedBelow raw.height := by
  intro id height hid
  obtain ⟨hmem, hle⟩ := h.issuances id height hid
  refine ⟨hmem, ?_⟩
  cases hc : l.chain with
  | nil =>
    have hnil : l.storedTxs = [] := by rw [storedTxs_eq, hc]; rfl
    rw [h.indexed.mem_txs, hnil] at hmem
    cases hmem
  | cons tip older =>
    have hlt := height_of_misfit? hm (by rw [hc]; rfl)
    rw [chainHeight, hc] at hle
    exact UInt32.lt_of_le_of_lt hle hlt

theorem balance (h : Sound g valid l) (hnone : l.issuances = ∅) :
    live (·.type.holds) l.storedTxs + (Indices.of l.storedTxs).totalBurnt =
      mintedBy g l.storedTxs :=
  h.balanced hnone _ (List.prefix_refl _)

/-! ### Each change keeps the invariant -/

theorem adopted (h : Sound g valid l) (hv : ChainValid valid) (hm : tx ∈ valid)
    (hc : l.classify tx height = .ok c) (hb : c.isBsq) (ht : l.Takes c.tx) :
    Sound g valid (l.adopted c) := by
  have hi := h.indexed.adopted (named_of_classify (hv.named tx hm) hc) ht
  have hs := storedTxs_adopted ht
  have hd : Distinct (l.storedTxs ++ [c.tx]) := hs ▸ hi.distinct
  have hbalance := held_add_burntFee h.indexed h.rooted h.payloads hv hm hc hb ht
  have hlive := live_append_one (·.type.holds) hd
  have hburnt : (Indices.of (l.storedTxs ++ [c.tx])).totalBurnt =
      (Indices.of l.storedTxs).totalBurnt + c.tx.burntFee := by
    rw [Indices.of_append_one]
    rfl
  rw [h.genesis] at hbalance
  refine ⟨hi, h.rooted.adopted h.indexed hc hb ht, h.genesis, h.payloads.adopted hm hc ht,
    ?_, ?_, ?_⟩
  · intro id height' hid
    obtain ⟨hmem, hle⟩ := h.issuances id height' hid
    refine ⟨Std.ExtTreeMap.mem_insert.2 (.inr hmem), ?_⟩
    obtain ⟨tip, older, hchain, -⟩ := ht.tip
    rw [chainHeight, tip_adopted hchain]
    rwa [chainHeight, hchain] at hle
  · have hdead : dead (l.adopted c).issued (l.storedTxs ++ [c.tx]) = _ := dead_append_one _ hd
    have hsame : (l.adopted c).issued = l.issued := rfl
    have hbound := h.bounded
    rw [hs, hdead, hsame, hburnt]
    unfold held at hbalance
    omega
  · intro hnone txs hpre
    rw [hs] at hpre
    rcases List.prefix_concat_iff.1 hpre with rfl | hpre
    · have hno : l.issuances = ∅ := hnone
      have hzero : taken l.issued l.storedTxs c.tx.inputs = 0 :=
        sumOf_eq_zero fun o _ => by simp [issued_eq_false hno]
      have hbefore := h.balance hno
      unfold held at hbalance
      unfold Balanced
      rw [hburnt]
      omega
    · exact h.balanced hnone txs hpre

theorem parseTxs (h : Sound g valid l) (hv : ChainValid valid) {txs : List RawTx}
    (hm : ∀ tx ∈ txs, tx ∈ valid) : Sound g valid (l.parseTxs height txs).ledger :=
  parseTxs_induction h fun _ tx _ ht hl hc hb htakes => hl.adopted hv (hm tx ht) hc hb htakes

theorem apply (h : Sound g valid l) (hv : ChainValid valid) {raw : RawBlock}
    (hm : ∀ tx ∈ raw.txs, tx ∈ valid) : Sound g valid (l.apply raw).1 := by
  by_cases hf : l.Opens raw
  · have hbelow := h.issuedBelow hf.1.2
    have hn : ∀ tx ∈ raw.txs, tx.Named := fun tx ht => hv.named tx (hm tx ht)
    cases ho : (l.attempted raw).outcome with
    | ok u =>
      obtain ⟨b, -, hb⟩ := apply_of_ok hf ho
      rw [hb]
      exact (h.opened hbelow).parseTxs hv hm
    | error e =>
      rw [apply_of_error hf ho h.indexed hn hbelow.stored, reopened_of_issuedBelow hbelow]
      exact h.of_same (h.indexed.of_same rfl rfl h.indexed.heights) rfl rfl rfl
        fun _ _ _ hle => hle
  · obtain ⟨e, -, he⟩ | he := apply_of_not_opens hf
    · rw [he]
      exact h
    · rw [he]
      exact h

theorem addEvent (h : Sound g valid l) {event : Event} (ha : l.addEvent event = .ok l') :
    Sound g valid l' := by
  have hi := h.indexed.addEvent ha
  have hs := storedTxs_of_addEvent ha
  obtain ⟨-, hne, rfl⟩ := addEvent_eq_ok.1 ha
  obtain ⟨tip, older, hc⟩ := List.exists_cons_of_ne_nil hne
  refine h.of_same hi hs rfl rfl fun id height _ hle => ?_
  simp only [chainHeight, noted, hc, List.modifyHead_cons] at hle ⊢
  exact hle

theorem removeTip (h : Sound g valid l) (hnone : l.issuances = ∅) :
    Sound g valid (l.change .removeTip) := by
  cases hc : l.chain with
  | nil =>
    simp only [change, Ledger.removeTip, hc]
    exact h
  | cons block older =>
    obtain ⟨l₂, hr, hi, hchain, hg, -, -, hissued⟩ := removeTip_eq h.indexed hc
    -- Nothing was issued, so the exact balance of the transactions below the tip applies.
    have hempty : l₂.issuances = ∅ := by
      rw [hissued]
      apply Std.ExtTreeMap.ext_getElem?
      intro id
      rw [Std.ExtTreeMap.getElem?_filter', issuances_withdrawAll]
      simp [hnone]
    have hpre : l₂.storedTxs <+: l.storedTxs := by
      rw [storedTxs_of_removeTip hr]
      exact List.prefix_append ..
    have hbalanced : Balanced g l₂.storedTxs := h.balanced hnone _ hpre
    rw [change, hr]
    refine ⟨hi, ?_, hg.trans h.genesis, ?_, ?_, ?_, ?_⟩
    · intro tx htx
      obtain ⟨more, hmore⟩ := hpre
      rw [Option.map_some, Option.getD_some] at htx ⊢
      rw [hg]
      exact h.rooted tx (by rw [← hmore, List.head?_append, htx, Option.some_or])
    · intro o ho hop
      obtain ⟨more, hmore⟩ := hpre
      refine h.payloads o ?_ hop
      rw [← hmore, outputsOf, List.flatMap_append]
      exact List.mem_append_left _ ho
    · intro id height hid
      rw [Option.map_some, Option.getD_some, hempty] at hid
      simp at hid
    · have heq : live _ _ + _ = _ := hbalanced
      rw [Option.map_some, Option.getD_some, heq]
      exact Nat.le_add_right ..
    · exact fun _ txs htxs => h.balanced hnone txs (htxs.trans hpre)

theorem addIssuance (h : Sound g valid l) {id : TxId} (hle : height ≤ l.chainHeight)
    (ha : l.addIssuance id height = .ok l') : Sound g valid l' := by
  have hi := h.indexed.addIssuance ha
  obtain ⟨htype, rfl⟩ := addIssuance_eq_ok.1 ha
  -- Only the sum of the issued outputs that are spent can grow.
  refine ⟨hi, h.rooted, h.genesis, h.payloads, ?_, ?_, ?_⟩
  · intro id' height' hid
    rw [Std.ExtTreeMap.getElem?_insert] at hid
    split at hid
    · next he =>
      cases hid
      exact ⟨Std.LawfulEqOrd.eq_of_compare he ▸ h.indexed.mem_of_txType htype, hle⟩
    · exact h.issuances id' height' hid
  · refine Nat.le_trans h.bounded (Nat.add_le_add_left (sumOf_le fun o _ ho => ?_) _)
    simp only [issued, isIssued, Bool.and_eq_true, decide_eq_true_eq] at ho ⊢
    exact ⟨ho.1, ho.2.1, Std.ExtTreeMap.mem_insert.2 (.inr ho.2.2)⟩
  · intro hnone
    have hin := congrArg (fun m => m[id]?) hnone
    simp at hin

end Sound

end Ledger

/-! ### Runs -/

/-- Issuances are recorded up to the tip, and nothing is removed once something was issued. -/
def Change.AllowedIn (l : Ledger) : Change → Prop
  | .issue _ height => height ≤ l.chainHeight
  | .removeTip => l.issuances = ∅
  | .apply _ | .paramChange _ => True

instance (l : Ledger) : DecidablePred (Change.AllowedIn l)
  | .issue _ height => inferInstanceAs (Decidable (height ≤ l.chainHeight))
  | .removeTip => decidable_of_iff l.issuances.isEmpty Std.ExtTreeMap.isEmpty_iff
  | .apply _ | .paramChange _ => .isTrue trivial

def Change.txs : Change → List RawTx
  | .apply raw => raw.txs
  | .removeTip | .paramChange _ | .issue .. => []

namespace Ledger
variable {l : Ledger} {valid : List RawTx} {g : Genesis}

def Allows (l : Ledger) : List Change → Prop
  | [] => True
  | c :: cs => c.AllowedIn l ∧ (l.change c).Allows cs

instance decidableAllows (l : Ledger) : (cs : List Change) → Decidable (l.Allows cs)
  | [] => .isTrue trivial
  | c :: cs => @instDecidableAnd _ _ _ (decidableAllows (l.change c) cs)

namespace Sound

theorem change (h : Sound g valid l) (hv : ChainValid valid) {c : Change} (hc : c.AllowedIn l)
    (hm : ∀ tx ∈ c.txs, tx ∈ valid) : Sound g valid (l.change c) := by
  cases c with
  | apply raw => exact h.apply hv hm
  | removeTip => exact h.removeTip hc
  | paramChange change => exact kept_cases h fun _ => h.addEvent
  | issue txId height => exact kept_cases h fun _ => h.addIssuance hc

theorem changeAll (h : Sound g valid l) (hv : ChainValid valid) {cs : List Change}
    (hc : l.Allows cs) (hm : ∀ tx ∈ cs.flatMap Change.txs, tx ∈ valid) :
    Sound g valid (l.changeAll cs) := by
  induction cs generalizing l with
  | nil => exact h
  | cons c cs ih =>
    rw [List.flatMap_cons] at hm
    refine ih (h.change hv hc.1 fun tx ht => ?_) hc.2 fun tx ht => ?_
    · exact hm tx (List.mem_append_left _ ht)
    · exact hm tx (List.mem_append_right _ ht)

theorem circulating_eq_live (h : Sound g valid l) :
    l.circulating = live (·.type.holds) l.storedTxs + live l.issued l.storedTxs := by
  rw [h.indexed.circulating_eq, sumOf_split _ (fun o => o.type.holds)]
  congr 1
  · refine sumOf_congr fun o _ => ?_
    rw [isUnspent_eq h.indexed]
    cases hh : o.type.holds <;> simp [hh]
  · refine sumOf_congr fun o _ => ?_
    rw [isUnspent_eq h.indexed]
    cases ht : o.type <;> simp [issued, OutputType.holds, ht]

theorem minted_eq (h : Sound g valid l) : l.minted = mintedBy g l.storedTxs := by
  have hmem : l.genesisTx?.isSome ↔ g.txId ∈ l.storedTxs.map Tx.id := by
    rw [genesisTx?, tx?, Std.ExtTreeMap.isSome_getElem?_iff_mem, h.indexed.mem_txs, h.genesis]
  rw [minted, mintedBy, h.genesis]
  simp only [hmem]

theorem totalBurnt_eq (h : Sound g valid l) : l.totalBurnt = (Indices.of l.storedTxs).totalBurnt :=
  congrArg Indices.totalBurnt h.indexed.indices

theorem circulating_eq (h : Sound g valid l) (hnone : l.issuances = ∅) :
    l.circulating + l.totalBurnt = l.minted + l.totalIssued := by
  have hbalance := h.balance hnone
  have hzero : live l.issued l.storedTxs = 0 :=
    sumOf_eq_zero fun o _ => by simp [issued_eq_false hnone]
  have hzero' : sumOf l.issued (outputsOf l.storedTxs) = 0 :=
    sumOf_eq_zero fun o _ => issued_eq_false hnone o
  rw [h.circulating_eq_live, h.minted_eq, h.totalBurnt_eq, h.indexed.totalIssued_eq, hzero, hzero']
  omega

end Sound

end Ledger

end DaoLedger
