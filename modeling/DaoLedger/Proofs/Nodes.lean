import Mathlib.Data.List.TakeWhile
import DaoLedger.Node.FullNode
import DaoLedger.Node.LiteNode
import DaoLedger.Proofs.History
/-!
What full and lite nodes do with their ledgers and their messages. Main statement: a lite node that
applies a response built from the ledger of its full node ends in a state of the history, and in
that very ledger if it had asked for all that it lacked.
-/
namespace DaoLedger

/-! ### The executor -/

namespace Executor
variable {x : Executor}

theorem parseBlock_of_works (h : x.Works) (raw : RawBlock) : x.parseBlock raw = x.parseOne raw := by
  rw [parseBlock, h.running, h.free]
  rfl

theorem parseBlock_cases (h : x.Runs) (raw : RawBlock) :
    x.parseBlock raw = (x, .never) ∨ x.parseBlock raw = x.parseOne raw := by
  rw [parseBlock, h.running]
  cases x.stuck with
  | true => exact .inl rfl
  | false => exact .inr rfl

theorem parseBlock_eq_ok (h : x.Runs) {raw : RawBlock} {b : Block}
    (hok : (x.parseBlock raw).2 = .ok b) :
    (x.parseBlock raw).1.ledger = (x.ledger.apply raw).1 ∧ (x.ledger.apply raw).2 = .ok b := by
  rcases parseBlock_cases h raw with hx | hx
  · simp [hx] at hok
  · rw [hx, result_parseOne h.unbroken] at hok
    exact ⟨by rw [hx, ledger_parseOne h.unbroken], Result.mapError_eq_ok.1 hok⟩

theorem parseBlocks_of_works (h : x.Works) (raws : List RawBlock) :
    (x.parseBlocks raws).1 = (x.parseBatch raws).1 := by
  simp only [parseBlocks, h.running, h.free, Bool.not_true, Bool.false_eq_true, if_false]

end Executor

/-! ### The full node -/

namespace FullNode
variable {n : FullNode}

theorem executor_dispatch (n : FullNode) (ds : List Delivery) :
    (n.dispatch ds).1.executor = n.executor := by
  induction ds generalizing n with
  | nil => rfl
  | cons d ds ih => exact ih _

theorem sends_dispatch (n : FullNode) (ds : List Delivery) :
    (n.dispatch ds).2.map (·.2) = ds := by
  induction ds generalizing n with
  | nil => rfl
  | cons d ds ih => exact congrArg (d :: ·) (ih _)

theorem executor_serve (n : FullNode) (fromHeight nonce : UInt32) (c : Connection) :
    (n.serve fromHeight nonce c).1.executor = n.executor := by
  unfold serve
  split
  · rfl
  · exact executor_dispatch ..

theorem executor_handle (n : FullNode) (e : PeerEvent) :
    ∃ metrics, (n.handle e).1.executor = { n.executor with metrics } := by
  cases e with
  | connected c => exact ⟨_, rfl⟩
  | disconnected c => exact ⟨_, rfl⟩
  | received c message =>
    cases message with
    | getBlocks fromHeight nonce => exact ⟨_, n.executor_serve fromHeight nonce c⟩
    | _ => exact ⟨_, rfl⟩

theorem executor_settle (n : FullNode) (number : Nat) (result : SendResult) :
    ∃ metrics, (n.settle number result).1.executor = { n.executor with metrics } := by
  unfold settle
  cases n.deliveries[number]? with
  | none => exact ⟨_, rfl⟩
  | some d => cases result <;> exact ⟨_, rfl⟩

theorem executor_applyBlock (n : FullNode) (raw : RawBlock) :
    (n.applyBlock raw).1.executor = (n.executor.parseBlock raw).1 := by
  unfold applyBlock
  rcases n.executor.parseBlock raw with ⟨x, b | e | -⟩
  · exact executor_dispatch ..
  · rfl
  · rfl

/-- Only an accepted block is announced, as it was stored. -/
theorem sends_applyBlock {raw : RawBlock} {d : Delivery}
    (hd : d ∈ (n.applyBlock raw).2.2.map (·.2)) :
    ∃ b c, (n.executor.parseBlock raw).2 = .ok b ∧ d = .newBlock c b.raw := by
  unfold applyBlock at hd
  revert hd
  rcases n.executor.parseBlock raw with ⟨x, b | e | -⟩
  · intro hd
    have hsends := sends_dispatch { n with executor := x }
      ({ n with executor := x }.peerList.map fun c => .newBlock c b.raw)
    simp only [broadcast] at hd
    rw [hsends] at hd
    obtain ⟨c, -, rfl⟩ := List.mem_map.1 hd
    exact ⟨b, c, rfl, rfl⟩
  · intro hd
    cases hd
  · intro hd
    cases hd

end FullNode

/-! ### Channels of requests -/

def Pending.Holds (p : Pending) (P : BlocksResponse → Prop) : Prop :=
  ∀ channel ∈ p.channels, ∀ response, channel.slot = .holding response → P response

namespace Pending
variable {p p' : Pending} {P : BlocksResponse → Prop}

theorem Holds.modify (h : p.Holds P) {waiting : Map UInt32 Nat} {number : Nat}
    {f : OneShot BlocksResponse → OneShot BlocksResponse}
    (hf : ∀ channel ∈ p.channels, ∀ response, (f channel).slot = .holding response → P response) :
    Holds ⟨waiting, p.channels.modify number f⟩ P := by
  intro channel hc response hr
  obtain ⟨i, hi⟩ := List.mem_iff_getElem?.1 hc
  rw [List.getElem?_modify] at hi
  obtain ⟨old, hold, rfl⟩ := Option.map_eq_some_iff.1 hi
  have hmem := List.mem_of_getElem? hold
  by_cases he : number = i
  · simp only [he, if_true] at hr
    exact hf old hmem response hr
  · simp only [he, if_false] at hr
    exact h old hmem response hr

theorem Holds.register (h : p.Holds P) {nonce : UInt32} {number : Nat}
    (hr : p.register nonce = some (p', number)) : p'.Holds P := by
  unfold Pending.register at hr
  split at hr
  · cases hr
  · cases hr
    intro channel hc response hs
    rcases List.mem_append.1 hc with hc | hc
    · exact h channel hc response hs
    · rw [List.mem_singleton.1 hc] at hs
      cases hs

theorem Holds.resolve (h : p.Holds P) {response : BlocksResponse} (hp : P response) :
    (p.resolve response).1.Holds P := by
  unfold Pending.resolve
  split
  · exact h
  · refine h.modify fun channel hc r hr => ?_
    unfold OneShot.complete at hr
    split at hr
    · cases hheard : channel.heard
      · simp [hheard] at hr
      · simp only [hheard, if_true, Slot.holding.injEq] at hr
        exact hr ▸ hp
    · exact h channel hc r hr

theorem Holds.remove (h : p.Holds P) (nonce : UInt32) : (p.remove nonce).Holds P := by
  unfold Pending.remove
  split
  · exact h
  · refine h.modify fun channel hc r hr => ?_
    unfold OneShot.cancel at hr
    split at hr
    · cases hr
    · exact h channel hc r hr

theorem Holds.leave (h : p.Holds P) (c : Call) : (c.leave p).Holds P :=
  (h.remove c.nonce).modify fun channel hc r hr => (h.remove c.nonce) channel hc r hr

theorem Holds.answer (h : p.Holds P) {c : Call} {response : BlocksResponse}
    (ha : c.answer? p = some (.ok response)) : P response := by
  unfold Call.answer? Pending.receive at ha
  cases hc : p.channels[c.channel]? with
  | none => simp [hc] at ha
  | some channel =>
    refine h channel (List.mem_of_getElem? hc) response ?_
    simp only [hc, OneShot.receive] at ha
    cases hheard : channel.heard
    · simp [hheard] at ha
    · cases hslot : channel.slot <;> simp [hheard, hslot] at ha
      rw [ha]

end Pending

/-! ### The lite node -/

namespace LiteNode
variable {n : LiteNode} {g : Genesis} {full served : Ledger}

/-- The blocks that a response brings beyond what is there already. -/
def fresh (n : LiteNode) (response : BlocksResponse) : List RawBlock :=
  response.blocks.filter (n.nextHeight ≤ ·.height)

theorem applyNew_of_works (h : n.executor.Works) (response : BlocksResponse) :
    (n.applyNew response.blocks).1 =
      { n with executor := (n.executor.parseBatch (n.fresh response)).1 } := by
  unfold applyNew fresh
  rw [h.free]
  cases hf : response.blocks.filter (n.nextHeight ≤ ·.height) with
  | nil => rfl
  | cons raw fresh =>
    simp only [← Executor.parseBlocks_of_works h (raw :: fresh), Bool.false_eq_true, if_false]

theorem takeBlock_of_works (h : n.executor.Works) (raw : RawBlock) :
    (n.takeBlock raw).1 = n ∨ n.nextHeight ≤ raw.height ∧ n.connects raw ∧
      (n.takeBlock raw).1 = { n with executor := (n.executor.parseOne raw).1 } := by
  unfold takeBlock
  rw [if_neg (by simp [h.free])]
  by_cases hlow : raw.height < n.nextHeight
  · exact .inl (by rw [if_pos hlow])
  · by_cases hc : n.connects raw
    · refine .inr ⟨UInt32.not_lt.1 hlow, hc, ?_⟩
      rw [if_neg hlow, if_pos hc, Executor.parseBlock_of_works h]
    · exact .inl (by rw [if_neg hlow, if_neg hc])

theorem nextHeight_of_nil (h : Ledger.Built g n.executor.ledger)
    (hnil : n.executor.ledger.chain = []) : n.nextHeight = g.blockHeight := by
  rw [nextHeight, Ledger.tip?, hnil]
  exact congrArg Genesis.blockHeight h.facts.genesis

theorem call?_eq_some {n' : LiteNode} {call : Call} {c : Connection} {draw : UInt32}
    (h : n.call? c draw = some (n', call)) :
    call.fromHeight = n.nextHeight ∧ ∃ nonce pending number,
      n.pending.register nonce = some (pending, number) ∧ n' = { n with pending } := by
  rw [call?, Option.ite_none_left_eq_some] at h
  obtain ⟨⟨pending, call'⟩, hstart, heq⟩ := Option.map_eq_some_iff.1 h.2
  obtain ⟨⟨pending', number⟩, hregister, heq'⟩ := Option.map_eq_some_iff.1 hstart
  cases heq
  cases heq'
  exact ⟨rfl, _, _, _, hregister, rfl⟩

/-- An announced block is the next one, or it changes nothing. -/
theorem takeBlock_stored (hfull : Ledger.Built g full) (hd : (full.chain.map (·.hash)).Nodup)
    (hw : n.executor.Works) (hn : Ledger.Built g n.executor.ledger)
    (hs : n.executor.ledger.chain <:+ full.chain) {b : Block} (hb : b ∈ full.chain) :
    Executor.Advances g full n.executor (n.takeBlock b.raw).1.executor := by
  rcases takeBlock_of_works hw b.raw with h | ⟨-, hc, h⟩
  · rw [h]
    exact ⟨hn, List.suffix_refl _, hs, hw⟩
  · have hfirst (hnil : n.executor.ledger.chain = []) : [b] <:+ full.chain := by
      refine hfull.first_of_height hb ?_
      have hheight : b.raw.height = n.nextHeight := by simpa [connects, Ledger.tip?, hnil] using hc
      exact hheight.trans (nextHeight_of_nil hn hnil)
    rw [h]
    exact (Executor.parseOne_stored hfull hd hw hn hs hb hfirst).1

/-! ### Responses -/

theorem mem_blocksFrom {l : Ledger} {height : UInt32} {b : Block}
    (h : b ∈ l.blocksFrom height) : b ∈ l.chain :=
  (List.takeWhile_sublist _).subset (List.mem_reverse.1 h)

theorem blocksFrom_genesis {l : Ledger} (h : Ledger.Built g l) :
    l.blocksFrom g.blockHeight = l.chain.reverse := by
  have hall : l.chain.takeWhile (fun b => g.blockHeight ≤ b.height) = l.chain :=
    List.takeWhile_eq_self_iff.2 fun b hb => decide_eq_true (h.genesis_le b hb)
  rw [Ledger.blocksFrom, hall]

theorem fresh_response (n : LiteNode) (l : Ledger) (height nonce : UInt32) :
    n.fresh (l.response height nonce) =
      ((l.blocksFrom height).filter (n.nextHeight ≤ ·.height)).map Block.raw := by
  rw [fresh, Ledger.response, List.filter_map]
  rfl

theorem fresh_of_nil (hserved : Ledger.Built g served) (hn : Ledger.Built g n.executor.ledger)
    (hnil : n.executor.ledger.chain = []) :
    (served.blocksFrom g.blockHeight).filter (n.nextHeight ≤ ·.height) =
      served.chain.reverse := by
  rw [blocksFrom_genesis hserved]
  refine List.filter_eq_self.2 fun b hb => ?_
  rw [nextHeight_of_nil hn hnil]
  exact decide_eq_true (hserved.genesis_le b (List.mem_reverse.1 hb))

/-- A node without blocks lacks everything. -/
theorem apply_response_of_nil (hserved : Ledger.Built g served) (hw : n.executor.Works)
    (hn : Ledger.Built g n.executor.ledger) (hnil : n.executor.ledger.chain = [])
    (nonce : UInt32) :
    (n.applyNew (served.response g.blockHeight nonce).blocks).1.executor.ledger = served := by
  rw [applyNew_of_works hw, fresh_response, fresh_of_nil hserved hn hnil]
  exact Executor.parseBatch_missing hserved hw.unbroken hn (by rw [hnil]; simp)

theorem nextHeight_of_cons {tip : Block} {older : List Block}
    (hc : n.executor.ledger.chain = tip :: older) : n.nextHeight = tip.height + 1 := by
  rw [nextHeight, Ledger.tip?, hc]
  rfl

/-- A node that asked for all that it lacks has it when the response is applied. -/
theorem apply_response (hserved : Ledger.Built g served) (hw : n.executor.Works)
    (hn : Ledger.Built g n.executor.ledger) (hs : n.executor.ledger.chain <:+ served.chain)
    (nonce : UInt32) :
    (n.applyNew (served.response n.nextHeight nonce).blocks).1.executor.ledger = served := by
  cases hc : n.executor.ledger.chain with
  | nil =>
    rw [nextHeight_of_nil hn hc]
    exact apply_response_of_nil hserved hw hn hc nonce
  | cons tip older =>
    obtain ⟨newer, hnewer⟩ := hs
    have habove : ∀ b ∈ newer, tip.height < b.height := fun b hb => by
      have hp := hserved.heights
      rw [← hnewer, hc] at hp
      exact (List.pairwise_append.1 hp).2.2 b hb tip List.mem_cons_self
    rw [applyNew_of_works hw, fresh_response]
    by_cases hlast : tip.height.toNat + 1 < UInt32.size
    · have hnext : n.nextHeight.toNat = tip.height.toNat + 1 := by
        rw [nextHeight_of_cons hc, UInt32.toNat_add]
        exact Nat.mod_eq_of_lt hlast
      have hreach : ∀ b ∈ newer, n.nextHeight ≤ b.height := fun b hb => by
        have hlt := UInt32.lt_iff_toNat_lt.1 (habove b hb)
        rw [UInt32.le_iff_toNat_le]
        omega
      have htip : ¬n.nextHeight ≤ tip.height := by
        rw [UInt32.le_iff_toNat_le]
        omega
      have hfrom : served.blocksFrom n.nextHeight = newer.reverse := by
        rw [Ledger.blocksFrom, ← hnewer, hc, List.takeWhile_append_of_pos fun b hb =>
          decide_eq_true (hreach b hb)]
        simp [htip]
      have hall : newer.reverse.filter (n.nextHeight ≤ ·.height) = newer.reverse :=
        List.filter_eq_self.2 fun b hb => decide_eq_true (hreach b (List.mem_reverse.1 hb))
      rw [hfrom, hall]
      exact Executor.parseBatch_missing hserved hw.unbroken hn
        (by rw [List.reverse_reverse]; exact hnewer.symm)
    · -- At the highest height there is nothing more to come, and what comes is known.
      have hnil : newer = [] := List.eq_nil_iff_forall_not_mem.2 fun b hb => by
        have hlt := UInt32.lt_iff_toNat_lt.1 (habove b hb)
        have := b.height.toNat_lt
        simp only [UInt32.size] at hlast
        omega
      have hsame : n.executor.ledger = served := hn.eq_of_chain hserved (by rw [← hnewer, hnil]; rfl)
      refine (Executor.parseBatch_known hw.unbroken hn fun b hb => ?_).trans hsame
      rw [hsame]
      exact mem_blocksFrom (List.mem_filter.1 hb).1

/-- Any other response, as far as it is applied, leaves the node in a state of the history; one
that comes before the node has blocks has to begin at the genesis. -/
theorem parseBatch_fresh (hfull : Ledger.Built g full) (hd : (full.chain.map (·.hash)).Nodup)
    (hw : n.executor.Works) (hn : Ledger.Built g n.executor.ledger)
    (hs : n.executor.ledger.chain <:+ full.chain)
    (hserved : Ledger.Built g served) (hsuffix : served.chain <:+ full.chain)
    {height nonce : UInt32} (hfrom : n.executor.ledger.chain = [] → height = g.blockHeight)
    {applied : List RawBlock} (ha : applied <+: n.fresh (served.response height nonce)) :
    Executor.Advances g full n.executor (n.executor.parseBatch applied).1 := by
  rw [fresh_response] at ha
  obtain ⟨bs, hbs, rfl⟩ := List.prefix_map_iff.1 ha
  have hmem : ∀ b ∈ bs, b ∈ served.chain := fun b hb =>
    mem_blocksFrom (List.mem_filter.1 (hbs.subset hb)).1
  refine Executor.parseBatch_stored hfull hd hw hn hs (fun b hb => hsuffix.subset (hmem b hb)) ?_
  intro hnil b hhead
  rw [hfrom hnil, fresh_of_nil hserved hn hnil] at hbs
  obtain ⟨more, hmore⟩ := hbs
  obtain ⟨later, rfl⟩ := List.head?_eq_some_iff.1 hhead
  refine List.IsSuffix.trans ⟨(later ++ more).reverse, ?_⟩ hsuffix
  rw [← List.reverse_reverse served.chain, ← hmore]
  simp

end LiteNode

end DaoLedger
