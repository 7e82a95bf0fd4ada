import DaoLedger.Proofs.Answering
import DaoLedger.Proofs.Bisection
import Mathlib.Data.List.Chain
/-!
The chain as a linked list of blocks. Main statement: after any run of writes the heights grow from
the genesis height on, each block names the hash of the one before it, and looking up a height,
step by step or by halving, finds just the stored blocks there.
-/
namespace DaoLedger.Ledger

variable {g : Genesis} {l l' : Ledger} {raw : RawBlock}

/-! ### What every write keeps -/

structure Joined (g : Genesis) (l : Ledger) : Prop where
  genesis : l.genesis = g
  genesis_le : ∀ b ∈ l.chain, g.blockHeight ≤ b.height
  connected : l.chain.IsChain fun newer older => newer.previousHash = older.hash
  placed : ∀ b ∈ l.chain, ∀ tx ∈ b.txs, tx.blockHeight = b.height

namespace Joined

theorem new (g : Genesis) : Joined g (.new g) where
  genesis := rfl
  genesis_le := by simp [Ledger.new]
  connected := .nil
  placed := by simp [Ledger.new]

theorem opened (h : Joined g l) (hm : l.misfit? raw = none) : Joined g (l.opened raw) := by
  obtain ⟨hle, htip⟩ := misfit?_eq_none.1 hm
  refine ⟨h.genesis, ?_, ?_, ?_⟩
  · exact List.forall_mem_cons.2 ⟨h.genesis ▸ hle, h.genesis_le⟩
  · exact List.isChain_cons.2 ⟨fun tip hc => (htip tip hc).2, h.connected⟩
  · exact List.forall_mem_cons.2 ⟨by simp [RawBlock.opened], h.placed⟩

/-- A change of the tip that leaves its header as it is. -/
theorem modifyHead (h : Joined g l) {f : Block → Block} (hg : l'.genesis = l.genesis)
    (hc : l'.chain = l.chain.modifyHead f) (hheight : ∀ b, (f b).height = b.height)
    (hprevious : ∀ b, (f b).previousHash = b.previousHash)
    (hplaced : ∀ tip, l.chain.head? = some tip → ∀ tx ∈ (f tip).txs, tx.blockHeight = tip.height) :
    Joined g l' := by
  have hconnected := h.connected
  refine ⟨hg.trans h.genesis, ?_, ?_, ?_⟩
  · rw [hc]
    refine forall_mem_modifyHead h.genesis_le fun tip htip => ?_
    rw [hheight]
    exact h.genesis_le tip (List.mem_of_mem_head? htip)
  · rw [hc]
    cases hchain : l.chain with
    | nil => exact .nil
    | cons tip older =>
      rw [hchain, List.isChain_cons] at hconnected
      rw [List.modifyHead_cons, List.isChain_cons, hprevious]
      exact hconnected
  · rw [hc]
    refine forall_mem_modifyHead h.placed fun tip htip => ?_
    rw [hheight]
    exact hplaced tip htip

theorem written (h : Joined g l) {tx : Tx} (ht : l.Takes tx) : Joined g (l.written tx) := by
  refine h.modifyHead rfl rfl (fun _ => rfl) (fun _ => rfl) fun tip hc other hother => ?_
  rcases List.mem_append.1 hother with hold | hnew
  · exact h.placed tip (List.mem_of_mem_head? hc) other hold
  · obtain ⟨⟨tip', hc', hheight⟩, -⟩ := ht
    cases hc.symm.trans hc'
    rw [List.mem_singleton.1 hnew, hheight]

theorem noted (h : Joined g l) (event : Event) : Joined g (l.noted event) :=
  h.modifyHead rfl rfl (fun _ => rfl) (fun _ => rfl) fun tip hc =>
    h.placed tip (List.mem_of_mem_head? hc)

theorem removeTip (h : Joined g l) {block : Block} (hr : l.removeTip = some (block, l')) :
    Joined g l' := by
  obtain ⟨older, hc, hchain, hg, -⟩ := removeTip_rest hr
  obtain ⟨hgenesis, hle, hconnected, hplaced⟩ := h
  rw [hc] at hle hconnected hplaced
  rw [← hchain] at hle hconnected hplaced
  exact ⟨hg.trans hgenesis, (List.forall_mem_cons.1 hle).2, hconnected.of_cons,
    (List.forall_mem_cons.1 hplaced).2⟩

theorem write (h : Joined g l) (w : Write) : Joined g (l.write w) := by
  cases w with
  | start raw =>
    refine started_cases h fun l' hs => ?_
    obtain ⟨hm, -, rfl⟩ := start_eq_ok.1 hs
    exact h.opened hm
  | addTx tx =>
    refine kept_cases h fun l' ha => ?_
    obtain ⟨ht, rfl⟩ := addTx_eq_ok.1 ha
    exact h.written ht
  | addEvent event =>
    refine kept_cases h fun l' ha => ?_
    obtain ⟨-, -, rfl⟩ := addEvent_eq_ok.1 ha
    exact h.noted event
  | addIssuance txId height =>
    refine kept_cases h fun l' ha => ?_
    obtain ⟨-, rfl⟩ := addIssuance_eq_ok.1 ha
    exact ⟨h.genesis, h.genesis_le, h.connected, h.placed⟩
  | removeTip =>
    rw [Ledger.write]
    cases hr : l.removeTip with
    | none => exact h
    | some r => exact h.removeTip hr

theorem writeAll (h : Joined g l) (ws : List Write) : Joined g (l.writeAll ws) := by
  induction ws generalizing l with
  | nil => exact h
  | cons w ws ih => exact ih (h.write w)

end Joined

/-! ### Looking up heights -/

/-- Each block, in chain order, is above the one before it and names its hash; a height has the
one block that stands there, and from a height on stand the blocks that are not below it. -/
structure Linked (g : Genesis) (l : Ledger) : Prop where
  ascending : l.blocks.Pairwise fun older newer => older.height < newer.height
  genesis_le : ∀ b ∈ l.blocks, g.blockHeight ≤ b.height
  connected : l.blocks.IsChain fun older newer => newer.previousHash = older.hash
  placed : ∀ b ∈ l.blocks, ∀ tx ∈ b.txs, tx.blockHeight = b.height
  blockAt? : ∀ height b, l.blockAt? height = some b ↔ b ∈ l.blocks ∧ b.height = height
  blocksFrom : ∀ height, l.blocksFrom height = l.blocks.filter (height ≤ ·.height)
  bisected : ∀ height,
    Bisection.item? (fun b => compare b.height height) l.blocks = l.blockAt? height ∧
      Bisection.dropBelow (·.height < height) l.blocks = l.blocksFrom height

theorem compare_eq_lt {a b : UInt32} : compare a b = .lt ↔ a < b := compareOfLessAndEq_eq_lt

theorem compare_eq_gt {a b : UInt32} : compare a b = .gt ↔ b < a :=
  Std.OrientedCmp.gt_iff_lt.trans compare_eq_lt

theorem split_height {blocks : List Block}
    (h : blocks.Pairwise fun older newer => older.height < newer.height) (height : UInt32) :
    Bisection.Split (fun b => compare b.height height) blocks := by
  refine h.imp fun {older newer} hlt => ⟨fun hgt => ?_, fun hlow => ?_⟩
  · exact compare_eq_gt.2 (UInt32.lt_trans (compare_eq_gt.1 hgt) hlt)
  · exact compare_eq_lt.2 (UInt32.lt_trans hlt (compare_eq_lt.1 hlow))

theorem item?_eq_blockAt? (hp : l.blocks.Pairwise fun older newer => older.height < newer.height)
    (height : UInt32) :
    Bisection.item? (fun b => compare b.height height) l.blocks = l.blockAt? height := by
  have hdesc : (l.chain.map (·.height)).Pairwise (· > ·) :=
    List.pairwise_map.2 (List.pairwise_reverse.1 hp)
  rcases Bisection.item?_cases (split_height hp height) with ⟨b, hb, heq, hi⟩ | ⟨hne, hi⟩
  · have hheight : b.height = height := Std.LawfulEqCmp.compare_eq_iff_eq.1 heq
    rw [hi, (blockAt?_eq_some hdesc).2 ⟨List.mem_reverse.1 hb, hheight⟩]
  · have hnone : l.blockAt? height = none := by
      refine List.find?_eq_none.2 fun b hb hheight => hne b (List.mem_reverse.2 hb) ?_
      exact Std.LawfulEqCmp.compare_eq_iff_eq.2 (of_decide_eq_true hheight)
    rw [hi, hnone]

theorem linked_of_writes (g : Genesis) (ws : List Write) :
    Linked g ((Ledger.new g).writeAll ws) := by
  have hj := (Joined.new g).writeAll ws
  have hfrom := OfWrites.blocksFrom_eq (l := (Ledger.new g).writeAll ws) ⟨g, ws, rfl⟩
  have hheights := heights_writeAll (Timed.new g).heights ws
  have hp := List.pairwise_reverse.2 (List.pairwise_map.1 hheights)
  refine ⟨hp, ?_, ?_, ?_, fun height b => ?_, hfrom, fun height => ⟨?_, ?_⟩⟩
  · exact fun b hb => hj.genesis_le b (List.mem_reverse.1 hb)
  · exact List.isChain_reverse.2 hj.connected
  · exact fun b hb => hj.placed b (List.mem_reverse.1 hb)
  · rw [blocks, List.mem_reverse]
    exact blockAt?_eq_some hheights
  · exact item?_eq_blockAt? hp height
  · rw [hfrom, Bisection.dropBelow_eq_filter]
    · simp only [← decide_not, UInt32.not_lt]
    · exact hp.imp fun hlt hlow => decide_eq_true (UInt32.lt_trans hlt (of_decide_eq_true hlow))

end DaoLedger.Ledger
