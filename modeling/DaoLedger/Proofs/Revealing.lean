import DaoLedger.Proofs.Coherence
import DaoLedger.Proofs.Replay
/-!
Stakes of blind votes and the reveals that unlock them. Main statement: after any run each stored
reveal has taken, with its first input, the stake of an earlier blind vote, and no two have taken
the same.
-/
namespace DaoLedger

/-! ### Spent once -/

namespace Indices
variable {older newer : List Tx} {tx : Tx} {key : OutputKey} {j : Nat}

theorem spent_of (hd : Distinct (older ++ tx :: newer))
    (hu : key ∈ (Indices.of older).coins.unspent) (hj : Coins.spender? tx.inputs key = some j) :
    (Indices.of (older ++ tx :: newer)).coins.spent[key]? = some ⟨tx.blockHeight, tx.id, j⟩ := by
  induction newer using List.reverseRecOn with
  | nil =>
    rw [of_append_one, enter, Coins.spent_createAll, Coins.spent_spendAll, if_pos hu, hj]
    simp
  | append_singleton newer t ih =>
    rw [← List.cons_append, ← List.append_assoc] at hd ⊢
    have hbefore := (distinct_append_one.1 hd).1
    have hspent := ih hbefore
    have hnot : key ∉ (Indices.of (older ++ tx :: newer)).coins.unspent := fun hm =>
      hbefore.reflects.unspent_disjoint hm
        (Std.ExtTreeMap.isSome_getElem?_iff_mem.1 (by rw [hspent]; rfl))
    rw [of_append_one, enter, Coins.spent_createAll, Coins.spent_spendAll, if_neg hnot, hspent]

end Indices

/-! ### The stakes that reveals unlock -/

/-- The first input of a transaction names a stake that is unspent after some others. -/
def Unlocks (older : List Tx) (tx : Tx) : Prop :=
  ∃ input o, tx.inputs.head? = some input ∧
    (Indices.of older).coins.unspent[input.source]? = some o ∧ o.type = .blindVoteLockStake

/-- Each reveal unlocks a stake of the transactions before it. -/
def Unlocking (txs : List Tx) : Prop :=
  ∀ older tx newer, txs = older ++ tx :: newer → tx.type = .voteReveal → Unlocks older tx

theorem Unlocking.nil : Unlocking [] := by
  intro older tx newer hs
  cases List.append_eq_nil_iff.1 hs.symm |>.2

theorem Unlocking.cut {txs txs' : List Tx} (h : Unlocking txs) (hp : txs' <+: txs) :
    Unlocking txs' := by
  obtain ⟨more, rfl⟩ := hp
  intro older tx newer hs
  exact h older tx (newer ++ more) (by simp [hs])

theorem Unlocking.append_one {txs : List Tx} {tx : Tx} (h : Unlocking txs)
    (ht : tx.type = .voteReveal → Unlocks txs tx) : Unlocking (txs ++ [tx]) := by
  intro older t newer hs
  obtain ⟨rfl, rfl⟩ | ⟨newer', hs⟩ := append_one_eq_append_cons hs
  · exact ht
  · exact h older t newer' hs

namespace Ledger
variable {l l' : Ledger} {tx : RawTx} {height : UInt32} {c : Classified}

theorem unlocks_of_classify (hi : l.Indexed) (h : l.classify tx height = .ok c)
    (ht : c.tx.type = .voteReveal) : Unlocks l.storedTxs c.tx := by
  obtain ⟨-, -, rfl⟩ | ⟨-, -, rfl⟩ | ⟨-, -, rfl⟩ := classify_eq_ok.1 h
  · cases ht
  · obtain ⟨-, ⟨input, o, hhead, hu, htype⟩, -⟩ := (type_classifySpending (by decide)).1 ht
    have hinputs : (l.classifySpending (tx.placed height)).tx.inputs = tx.inputs :=
      congrArg RawTx.inputs (l.spends_classifySpending _).raw
    refine ⟨input, o, by rw [hinputs, hhead], ?_, htype⟩
    rw [← hi.indices]
    exact hu
  · cases ht

theorem vote_of_stake (hd : Distinct l.storedTxs) (hcoh : ∀ tx ∈ l.storedTxs, tx.Coherent)
    {older : List Tx} (hp : older <+: l.storedTxs) {key : OutputKey} {stake : Output}
    (hu : (Indices.of older).coins.unspent[key]? = some stake)
    (ht : stake.type = .blindVoteLockStake) :
    ∃ vote ∈ older, vote.type = .blindVote ∧ vote.outputs[0]? = some stake ∧
      key = ⟨vote.id, 0⟩ ∧ outputIn? l.storedTxs key = some stake := by
  obtain ⟨more, hs⟩ := hp
  rw [← hs] at hd hcoh ⊢
  have hd' := hd.of_append
  have hout := hd'.reflects.outputIn?_of_unspent hu
  obtain ⟨vote, hvote, ho, rfl⟩ := hd'.outputIn?_eq_some.1 hout
  obtain ⟨i, hi⟩ := List.mem_iff_getElem?.1 ho
  have hcoherent := hcoh vote (List.mem_append_left _ hvote)
  obtain ⟨rfl, htype⟩ := (hcoherent.roles .blindVote 0 .blindVoteLockStake rfl i).1
    (by rw [hi, Option.map_some, ht])
  obtain ⟨hid, hindex⟩ := (hd'.named vote hvote).key_of_getElem? hi
  have hzero : stake.index = 0 := UInt32.toNat_inj.1 hindex
  exact ⟨vote, hvote, htype, hi, by rw [Output.key, hid, hzero], outputIn?_append hout⟩

theorem Indexed.spentInfo?_eq (h : l.Indexed) {older newer : List Tx} {t : Tx}
    (hs : l.storedTxs = older ++ t :: newer) {input : Input} (hhead : t.inputs.head? = some input)
    {o : Output} (hu : (Indices.of older).coins.unspent[input.source]? = some o) :
    l.spentInfo? input.source = some ⟨t.blockHeight, t.id, 0⟩ := by
  have hfirst : Coins.spender? t.inputs input.source = some 0 := by
    obtain ⟨inputs, hinputs⟩ := List.head?_eq_some_iff.1 hhead
    rw [hinputs, Coins.spender?_cons, if_pos rfl]
  have hmem := Std.ExtTreeMap.isSome_getElem?_iff_mem.1 (Option.isSome_of_eq_some hu)
  have hcoins : l.coins = (Indices.of (older ++ t :: newer)).coins :=
    hs ▸ congrArg Indices.coins h.indices
  rw [spentInfo?, hcoins]
  exact Indices.spent_of (hs ▸ h.distinct) hmem hfirst

/-! ### Runs -/

theorem keeps_unlocking {cs : List Change} (hn : ∀ raw, .apply raw ∈ cs → raw.Named) :
    Keeps cs fun l => l.Indexed ∧ Unlocking l.storedTxs where
  opened l raw hm hf h := by
    refine ⟨(Indexed.keeps hn).opened l raw hm hf h.1, ?_⟩
    rw [storedTxs_opened]
    exact h.2
  adopted l raw tx c hm htx hc hb ht h := by
    refine ⟨(Indexed.keeps hn).adopted l raw tx c hm htx hc hb ht h.1, ?_⟩
    rw [storedTxs_adopted ht]
    exact h.2.append_one (unlocks_of_classify h.1 hc)
  removed l b l' hr h := by
    refine ⟨(Indexed.keeps hn).removed l b l' hr h.1, h.2.cut ?_⟩
    rw [storedTxs_of_removeTip hr]
    exact List.prefix_append ..
  noted l change l' ha h := by
    refine ⟨(Indexed.keeps hn).noted l change l' ha h.1, ?_⟩
    rw [storedTxs_of_addEvent ha]
    exact h.2
  issued l id height l' ha h := by
    refine ⟨(Indexed.keeps hn).issued l id height l' ha h.1, ?_⟩
    obtain ⟨-, rfl⟩ := addIssuance_eq_ok.1 ha
    exact h.2

/-- After any run each stored reveal has spent the stake of an earlier blind vote with its first
input, and no two have spent the same one. -/
theorem revealed_of_changes (g : Genesis) (cs : List Change)
    (hn : ∀ raw, .apply raw ∈ cs → raw.Named) :
    let l := (Ledger.new g).changeAll cs
    (∀ b ∈ l.blocks, ∀ tx ∈ b.txs, tx.type = .voteReveal →
      ∃ older newer vote stake input, l.storedTxs = older ++ tx :: newer ∧ vote ∈ older ∧
        vote.type = .blindVote ∧ vote.outputs[0]? = some stake ∧
        stake.type = .blindVoteLockStake ∧ tx.inputs.head? = some input ∧
        input.source = ⟨vote.id, 0⟩ ∧
        l.outputType? input.source = some .blindVoteLockStake ∧ ¬l.isUnspent input.source ∧
        l.spentInfo? input.source = some ⟨b.height, tx.id, 0⟩) ∧
      ((l.storedTxs.filter (·.type = .voteReveal)).map
        fun tx => tx.inputs.head?.map Input.source).Nodup := by
  intro l
  obtain ⟨hi, hunlocking⟩ : l.Indexed ∧ Unlocking l.storedTxs :=
    (keeps_unlocking hn).changeAll ⟨.new g, .nil⟩
  have hcoh := ((Coherent.new g).changeAll cs).storedTxs
  have hspent : ∀ tx ∈ l.storedTxs, tx.type = .voteReveal → ∃ input,
      tx.inputs.head? = some input ∧
        l.spentInfo? input.source = some ⟨tx.blockHeight, tx.id, 0⟩ := by
    intro tx htx ht
    obtain ⟨older, newer, hs⟩ := List.append_of_mem htx
    obtain ⟨input, stake, hhead, hu, -⟩ := hunlocking older tx newer hs ht
    exact ⟨input, hhead, hi.spentInfo?_eq hs hhead hu⟩
  constructor
  · intro b hb tx htx ht
    obtain ⟨older, newer, hs⟩ := List.append_of_mem (List.mem_flatMap.2 ⟨b, hb, htx⟩)
    obtain ⟨input, stake, hhead, hu, hstake⟩ := hunlocking older tx newer hs ht
    obtain ⟨vote, hvote, htype, hfirst, hkey, hout⟩ :=
      vote_of_stake hi.distinct hcoh ⟨_, hs.symm⟩ hu hstake
    have hinfo := hi.spentInfo?_eq hs hhead hu
    refine ⟨older, newer, vote, stake, input, hs, hvote, htype, hfirst, hstake, hhead, hkey, ?_,
      ?_, ?_⟩
    · exact (hi.reflects.type _).trans (by rw [hout, Option.map_some, hstake])
    · refine fun hunspent => hi.reflects.unspent_disjoint (of_decide_eq_true hunspent) ?_
      exact Std.ExtTreeMap.isSome_getElem?_iff_mem.1 (Option.isSome_of_eq_some hinfo)
    · rw [hinfo, hi.heights b (List.mem_reverse.1 hb) tx htx]
  · refine List.Nodup.map_on (fun tx htx tx' htx' he => ?_) (hi.distinct.ids.of_map.filter _)
    obtain ⟨htx, ht⟩ := List.mem_filter.1 htx
    obtain ⟨htx', ht'⟩ := List.mem_filter.1 htx'
    obtain ⟨input, hhead, hinfo⟩ := hspent tx htx (of_decide_eq_true ht)
    obtain ⟨input', hhead', hinfo'⟩ := hspent tx' htx' (of_decide_eq_true ht')
    rw [hhead, hhead', Option.map_some, Option.map_some, Option.some.injEq] at he
    rw [he, hinfo', Option.some.injEq, SpentInfo.mk.injEq] at hinfo
    exact List.inj_on_of_nodup_map hi.distinct.ids htx htx' hinfo.2.1.symm

def sampleReveals : List Change :=
  let payload : List UInt8 := 0x13 :: 1 :: List.replicate 52 0
  let reveal : RawTx := ⟨⟨"w"⟩, 4370, ⟨"c"⟩, 0, [Sample.input "v" 0], [Sample.output "w" 0 400,
    { Sample.output "w" 1 0 with payload := some payload }]⟩
  let again : RawTx := ⟨⟨"x"⟩, 4370, ⟨"c"⟩, 0, [Sample.input "v" 0, Sample.input "r" 0],
    [Sample.output "x" 0 200, { Sample.output "x" 1 0 with payload := some payload }]⟩
  let reveals : RawBlock := ⟨4370, 0, ⟨"c"⟩, ⟨"b"⟩, [reveal, again]⟩
  [.apply Sample.first, .apply Sample.voting, .apply reveals, .removeTip, .apply reveals]

theorem revealed_sampleReveals :
    let l := (Ledger.new Sample.genesis).changeAll sampleReveals
    (∀ raw, .apply raw ∈ sampleReveals → raw.Named) ∧
      l.storedTxs.map (·.type) =
        [.genesis, .compensationRequest, .blindVote, .voteReveal, .invalid] ∧
      ∃ tx ∈ l.storedTxs, tx.id = ⟨"w"⟩ ∧ ∃ vote ∈ l.storedTxs, ∃ input,
        vote.type = .blindVote ∧ tx.inputs.head? = some input ∧ input.source = ⟨vote.id, 0⟩ ∧
          l.spentInfo? input.source = some ⟨4370, ⟨"w"⟩, 0⟩ := by
  intro l
  have hnamed : ∀ c ∈ sampleReveals, c.OfBlocks := by decide
  have hn : ∀ raw, .apply raw ∈ sampleReveals → raw.Named := fun raw => hnamed (.apply raw)
  have hstored : ∃ b ∈ l.blocks, b.height = 4370 ∧
      ∃ tx ∈ b.txs, tx.id = ⟨"w"⟩ ∧ tx.type = .voteReveal := by decide +kernel
  obtain ⟨b, hb, hheight, tx, htx, hid, htype⟩ := hstored
  obtain ⟨older, newer, vote, stake, input, hs, hvote, hvoted, -, -, hhead, hkey, -, -, hinfo⟩ :=
    (revealed_of_changes Sample.genesis sampleReveals hn).1 b hb tx htx htype
  rw [hheight, hid] at hinfo
  have hmem : vote ∈ l.storedTxs := hs ▸ List.mem_append_left _ hvote
  exact ⟨hn, by decide +kernel, tx, List.mem_flatMap.2 ⟨b, hb, htx⟩, hid, vote, hmem, input, hvoted,
    hhead, hkey, hinfo⟩

end Ledger

end DaoLedger
