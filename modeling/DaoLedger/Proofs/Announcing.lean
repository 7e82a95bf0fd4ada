import DaoLedger.Proofs.Nodes
/-!
Announcing a block to the peers of a full node. Main statement: in whatever order and however the
deliveries end, those peers are dropped and their connections closed to which the block could not be
sent, and no others; the ledger and the answer to whoever brought the block do not depend on it.
-/
namespace DaoLedger

/-! ### The executor -/

namespace Executor

theorem peerCount_parseOne (x : Executor) (raw : RawBlock) :
    (x.parseOne raw).1.metrics.peerCount = x.metrics.peerCount := by
  rw [parseOne]
  cases x.broken? x.ledger raw with
  | some _ => rfl
  | none => rcases x.ledger.apply raw with ⟨l, b | e | -⟩ <;> rfl

theorem peerCount_parseBlock (x : Executor) (raw : RawBlock) :
    (x.parseBlock raw).1.metrics.peerCount = x.metrics.peerCount := by
  unfold parseBlock
  split
  · rfl
  · split
    · rfl
    · exact x.peerCount_parseOne raw

end Executor

namespace FullNode
variable {n : FullNode}

/-! ### Announcements as a whole -/

/-- Reports the ends of deliveries, one after the other. The connections to be closed come in the
same order. -/
def settleAll (n : FullNode) : List (Nat × SendResult) → FullNode × List (Connection × CloseReason)
  | [] => (n, [])
  | (number, result) :: ends =>
    let (n, closing) := n.settle number result
    let (n, closings) := n.settleAll ends
    (n, closing.toList ++ closings)

def announce (n : FullNode) (raw : RawBlock) (ends : List (Nat × SendResult)) :
    FullNode × Result NodeError Block × List (Connection × CloseReason) :=
  let (n, result, _) := n.applyBlock raw
  let (n, closings) := n.settleAll ends
  (n, result, closings)

/-- The ends of deliveries, if `outcome` says how each connection fares. -/
def endsOf (outcome : Connection → SendResult) (sends : List (Nat × Delivery)) :
    List (Nat × SendResult) :=
  sends.map fun send => (send.1, outcome send.2.connection)

inductive Step where
  | event (e : PeerEvent)
  | apply (raw : RawBlock)
  | settle (number : Nat) (result : SendResult)
  | stop

def step (n : FullNode) : Step → FullNode
  | .event e => (n.handle e).1
  | .apply raw => (n.applyBlock raw).1
  | .settle number result => (n.settle number result).1
  | .stop => { n with executor := n.executor.stop }

def run (x : Executor) (steps : List Step) : FullNode := steps.foldl step (.new x)

/-! ### Deliveries -/

theorem peers_dispatch (n : FullNode) (ds : List Delivery) : (n.dispatch ds).1.peers = n.peers := by
  induction ds generalizing n with
  | nil => rfl
  | cons d ds ih => exact ih _

theorem numbers_dispatch (n : FullNode) (ds : List Delivery) :
    (n.dispatch ds).2.map (·.1) = List.range' n.nextDelivery ds.length := by
  induction ds generalizing n with
  | nil => rfl
  | cons d ds ih => exact congrArg (n.nextDelivery :: ·) (ih _)

theorem deliveries_dispatch_of_lt {number : Nat} (h : number < n.nextDelivery)
    (ds : List Delivery) : (n.dispatch ds).1.deliveries[number]? = n.deliveries[number]? := by
  induction ds generalizing n with
  | nil => rfl
  | cons d ds ih =>
    have hne : n.nextDelivery ≠ number := Nat.ne_of_gt h
    refine (ih (Nat.lt_succ_of_lt h)).trans ?_
    simp [Std.ExtTreeMap.getElem?_insert, hne]

theorem deliveries_dispatch (n : FullNode) (ds : List Delivery) :
    ∀ send ∈ (n.dispatch ds).2, (n.dispatch ds).1.deliveries[send.1]? = some send.2 := by
  induction ds generalizing n with
  | nil => intro _ h; cases h
  | cons d ds ih =>
    intro send h
    rcases List.mem_cons.1 h with rfl | h
    · exact (deliveries_dispatch_of_lt (Nat.lt_succ_self _) ds).trans
        Std.ExtTreeMap.getElem?_insert_self
    · exact ih _ send h

theorem applyBlock_of_error {x : Executor} {raw : RawBlock} {e : NodeError}
    (h : n.executor.parseBlock raw = (x, .error e)) :
    n.applyBlock raw = ({ n with executor := x }, .error e, []) := by
  rw [applyBlock, h]

theorem applyBlock_of_never {x : Executor} {raw : RawBlock}
    (h : n.executor.parseBlock raw = (x, .never)) :
    n.applyBlock raw = ({ n with executor := x }, .never, []) := by
  rw [applyBlock, h]

theorem applyBlock_of_ok {x : Executor} {raw : RawBlock} {b : Block}
    (h : n.executor.parseBlock raw = (x, .ok b)) :
    let parsed : FullNode := { n with executor := x }
    n.applyBlock raw = ((parsed.broadcast b).1, .ok b, (parsed.broadcast b).2) := by
  rw [applyBlock, h]

/-! ### Peers -/

/-- Peers are kept under their own ids, the gauge shows how many there are, and the numbers of
deliveries to come are free. -/
structure Ordered (n : FullNode) : Prop where
  ids : ∀ (id : UInt64) c, n.peers[id]? = some c → c.id = id
  gauge : n.executor.metrics.peerCount = Int64.ofNat n.peers.size
  free : ∀ number ∈ n.deliveries, number < n.nextDelivery

theorem length_peerList (n : FullNode) : n.peerList.length = n.peers.size := by
  rw [peerList, List.length_map, Std.ExtTreeMap.length_toList]

namespace Ordered

theorem withExecutor (h : n.Ordered) {x : Executor}
    (hx : x.metrics.peerCount = n.executor.metrics.peerCount) :
    Ordered { n with executor := x } := ⟨h.ids, hx.trans h.gauge, h.free⟩

theorem addPeer (h : n.Ordered) (c : Connection) : (n.addPeer c).Ordered := by
  refine ⟨fun id d hd => ?_, rfl, h.free⟩
  change (n.peers.insert c.id c)[id]? = some d at hd
  rw [Std.ExtTreeMap.getElem?_insert] at hd
  split at hd
  · cases hd
    exact Std.LawfulEqCmp.compare_eq_iff_eq.1 ‹_›
  · exact h.ids id d hd

theorem removePeer (h : n.Ordered) (c : Connection) : (n.removePeer c).Ordered := by
  refine ⟨fun id d hd => ?_, rfl, h.free⟩
  change (n.peers.erase c.id)[id]? = some d at hd
  rw [Std.ExtTreeMap.getElem?_erase] at hd
  split at hd
  · cases hd
  · exact h.ids id d hd

theorem dispatch (h : n.Ordered) (ds : List Delivery) : (n.dispatch ds).1.Ordered := by
  induction ds generalizing n with
  | nil => exact h
  | cons d ds ih =>
    refine ih ⟨h.ids, h.gauge, fun number hnumber => ?_⟩
    rcases Std.ExtTreeMap.mem_insert.1 hnumber with he | hnumber
    · rw [← Std.LawfulEqCmp.compare_eq_iff_eq.1 he]
      exact Nat.lt_succ_self _
    · exact Nat.lt_succ_of_lt (h.free number hnumber)

theorem serve (h : n.Ordered) (fromHeight nonce : UInt32) (c : Connection) :
    (n.serve fromHeight nonce c).1.Ordered := by
  unfold FullNode.serve
  split
  · exact h
  · exact h.dispatch _

theorem handle (h : n.Ordered) (e : PeerEvent) : (n.handle e).1.Ordered := by
  cases e with
  | connected c => exact h.addPeer c
  | disconnected c => exact h.removePeer c
  | received c message =>
    cases message with
    | getBlocks fromHeight nonce => exact h.serve fromHeight nonce c
    | _ => exact h

theorem settle (h : n.Ordered) (number : Nat) (result : SendResult) :
    (n.settle number result).1.Ordered := by
  unfold FullNode.settle
  cases n.deliveries[number]? with
  | none => exact h
  | some d =>
    have hcounted : Ordered { n with
        deliveries := n.deliveries.erase number
        executor.metrics := counted n.executor.metrics d result } := by
      refine ⟨h.ids, ?_, fun other ho => h.free other (Std.ExtTreeMap.mem_of_mem_erase ho)⟩
      rw [← h.gauge]
      cases d <;> cases result <;> rfl
    cases result with
    | sent => exact hcounted
    | _ => exact hcounted.removePeer _

theorem applyBlock (h : n.Ordered) (raw : RawBlock) : (n.applyBlock raw).1.Ordered := by
  have hcount := n.executor.peerCount_parseBlock raw
  rcases hparse : n.executor.parseBlock raw with ⟨x, b | e | -⟩ <;> rw [hparse] at hcount
  · rw [applyBlock_of_ok hparse]
    exact (h.withExecutor hcount).dispatch _
  · rw [applyBlock_of_error hparse]
    exact h.withExecutor hcount
  · rw [applyBlock_of_never hparse]
    exact h.withExecutor hcount

theorem step (h : n.Ordered) (s : Step) : (n.step s).Ordered := by
  cases s with
  | event e => exact h.handle e
  | apply raw => exact h.applyBlock raw
  | settle number result => exact h.settle number result
  | stop => exact h.withExecutor rfl

theorem mem_peerList (h : n.Ordered) {c : Connection} :
    c ∈ n.peerList ↔ n.peers[c.id]? = some c := by
  rw [peerList, List.mem_map]
  constructor
  · rintro ⟨⟨id, c⟩, he, rfl⟩
    have hget := Std.ExtTreeMap.mem_toList_iff_getElem?_eq_some.1 he
    rw [h.ids id c hget]
    exact hget
  · intro hget
    exact ⟨(c.id, c), Std.ExtTreeMap.mem_toList_iff_getElem?_eq_some.2 hget, rfl⟩

theorem sorted_peerList (h : n.Ordered) : n.peerList.Pairwise (·.id < ·.id) := by
  rw [peerList, List.pairwise_map]
  refine Std.ExtTreeMap.ordered_keys_toList.imp_of_mem fun {a b} ha hb hlt => ?_
  rw [h.ids a.1 a.2 (Std.ExtTreeMap.mem_toList_iff_getElem?_eq_some.1 ha),
    h.ids b.1 b.2 (Std.ExtTreeMap.mem_toList_iff_getElem?_eq_some.1 hb)]
  exact compareOfLessAndEq_eq_lt.1 hlt

theorem peerCount_eq (h : n.Ordered) :
    n.executor.metrics.peerCount = Int64.ofNat n.peerList.length := by
  rw [h.gauge, length_peerList]

end Ordered

theorem ordered_new {x : Executor} (hx : x.metrics.peerCount = 0) : (FullNode.new x).Ordered where
  ids _ _ h := by
    rw [FullNode.new, Std.ExtTreeMap.getElem?_empty] at h
    cases h
  gauge := hx
  free _ h := absurd h Std.ExtTreeMap.not_mem_empty

theorem ordered_run {x : Executor} (hx : x.metrics.peerCount = 0) (steps : List Step) :
    (run x steps).Ordered := by
  refine List.foldlRecOn steps step (ordered_new hx) ?_
  exact fun _ h s _ => h.step s

theorem nodup_of_sorted {xs : List Connection} (h : xs.Pairwise (·.id < ·.id)) : xs.Nodup :=
  h.imp fun {a b} hlt he => by
    subst he
    exact UInt64.lt_irrefl _ hlt

theorem eq_of_sorted {xs ys : List Connection} (hx : xs.Pairwise (·.id < ·.id))
    (hy : ys.Pairwise (·.id < ·.id)) (h : ∀ c, c ∈ xs ↔ c ∈ ys) : xs = ys := by
  refine List.Perm.eq_of_pairwise (fun a b _ _ hab hba => ?_) hx hy
    ((List.perm_ext_iff_of_nodup (nodup_of_sorted hx) (nodup_of_sorted hy)).2 h)
  exact absurd (UInt64.lt_trans hab hba) (UInt64.lt_irrefl _)

/-! ### The ends of deliveries -/

def closing? (outcome : Connection → SendResult) (c : Connection) :
    Option (Connection × CloseReason) :=
  (closeReason? (outcome c)).map (c, ·)

theorem settle_of_delivery {number : Nat} {d : Delivery} (hd : n.deliveries[number]? = some d)
    (result : SendResult) :
    (n.settle number result).1.deliveries = n.deliveries.erase number ∧
      (n.settle number result).1.peers =
        (if (closeReason? result).isSome then n.peers.erase d.connection.id else n.peers) ∧
      (n.settle number result).2 = (closeReason? result).map (d.connection, ·) := by
  unfold settle
  rw [hd]
  cases result <;> exact ⟨rfl, rfl, rfl⟩

theorem settleAll_cons (n : FullNode) (number : Nat) (result : SendResult)
    (ends : List (Nat × SendResult)) :
    n.settleAll ((number, result) :: ends) =
      (((n.settle number result).1.settleAll ends).1,
        (n.settle number result).2.toList ++ ((n.settle number result).1.settleAll ends).2) := rfl

theorem ledger_settleAll (n : FullNode) (ends : List (Nat × SendResult)) :
    (n.settleAll ends).1.executor.ledger = n.executor.ledger := by
  induction ends generalizing n with
  | nil => rfl
  | cons first ends ih =>
    obtain ⟨metrics, hsettle⟩ := n.executor_settle first.1 first.2
    have hfirst : (n.settle first.1 first.2).1.executor.ledger = n.executor.ledger := by rw [hsettle]
    exact (ih _).trans hfirst

theorem Ordered.settleAll (h : n.Ordered) (ends : List (Nat × SendResult)) :
    (n.settleAll ends).1.Ordered := by
  induction ends generalizing n with
  | nil => exact h
  | cons first ends ih => exact ih (h.settle first.1 first.2)

theorem closeReason?_eq_none {result : SendResult} :
    closeReason? result = none ↔ result = .sent := by
  cases result <;> simp [closeReason?]

/-- Deliveries that are under way end in some order. -/
theorem settleAll_endsOf (outcome : Connection → SendResult) {order : List (Nat × Delivery)}
    (hnumbers : (order.map (·.1)).Nodup)
    (hall : ∀ send ∈ order, n.deliveries[send.1]? = some send.2) :
    (n.settleAll (endsOf outcome order)).2 =
        (order.map (·.2.connection)).filterMap (closing? outcome) ∧
      ∀ (id : UInt64) c, (n.settleAll (endsOf outcome order)).1.peers[id]? = some c ↔
        n.peers[id]? = some c ∧
          ∀ send ∈ order, send.2.connection.id = id → outcome send.2.connection = .sent := by
  induction order generalizing n with
  | nil => exact ⟨rfl, fun id c => by simp [endsOf, settleAll]⟩
  | cons send order ih =>
    obtain ⟨number, d⟩ := send
    obtain ⟨hfirst, hrest⟩ := List.nodup_cons.1 hnumbers
    obtain ⟨hdeliveries, hpeers, hclosing⟩ :=
      settle_of_delivery (hall _ List.mem_cons_self) (outcome d.connection)
    have hlater : ∀ send ∈ order,
        (n.settle number (outcome d.connection)).1.deliveries[send.1]? = some send.2 := by
      intro send hsend
      have hne : number ≠ send.1 := by
        intro he
        exact hfirst (List.mem_map.2 ⟨send, hsend, he.symm⟩)
      rw [hdeliveries, Std.ExtTreeMap.getElem?_erase, if_neg]
      · exact hall send (List.mem_cons_of_mem _ hsend)
      · exact fun he => hne (Std.LawfulEqCmp.compare_eq_iff_eq.1 he)
    obtain ⟨hclosings, hlookups⟩ := ih hrest hlater
    rw [show endsOf outcome ((number, d) :: order) =
      (number, outcome d.connection) :: endsOf outcome order from rfl, settleAll_cons]
    refine ⟨?_, fun id c => ?_⟩
    · rw [hclosings, hclosing, List.map_cons, List.filterMap_cons, closing?]
      cases closeReason? (outcome d.connection) <;> rfl
    · rw [hlookups id c, hpeers, List.forall_mem_cons]
      by_cases hsent : outcome d.connection = .sent
      · simp [hsent, closeReason?]
      · have hclose : (closeReason? (outcome d.connection)).isSome :=
          Option.isSome_iff_ne_none.2 (hsent ∘ closeReason?_eq_none.1)
        rw [if_pos hclose, Std.ExtTreeMap.getElem?_erase]
        by_cases hid : d.connection.id = id <;> simp [hid, hsent]

/-! ### Broadcasts -/

theorem messages_broadcast (n : FullNode) (b : Block) :
    (n.broadcast b).2.map (fun send => (send.2.connection, send.2.message)) =
      n.peerList.map (·, .newBlock b.raw) := by
  have hsends := congrArg (List.map fun d : Delivery => (d.connection, d.message))
    (n.sends_dispatch (n.peerList.map fun c => .newBlock c b.raw))
  rw [List.map_map, List.map_map] at hsends
  exact hsends

theorem connections_broadcast (n : FullNode) (b : Block) :
    (n.broadcast b).2.map (·.2.connection) = n.peerList := by
  have hconnections := congrArg (List.map Prod.fst) (n.messages_broadcast b)
  rw [List.map_map, List.map_map] at hconnections
  exact hconnections.trans (List.map_id _)

theorem nodup_broadcast (n : FullNode) (b : Block) : ((n.broadcast b).2.map (·.1)).Nodup := by
  rw [broadcast, numbers_dispatch]
  exact List.nodup_range' 1

theorem mem_closings {outcome : Connection → SendResult} {cs : List Connection} {c : Connection}
    {reason : CloseReason} : (c, reason) ∈ cs.filterMap (closing? outcome) ↔
      c ∈ cs ∧ closeReason? (outcome c) = some reason := by
  rw [List.mem_filterMap]
  constructor
  · rintro ⟨d, hd, hclose⟩
    obtain ⟨_, hreason, heq⟩ := Option.map_eq_some_iff.1 hclose
    cases heq
    exact ⟨hd, hreason⟩
  · rintro ⟨hc, hreason⟩
    exact ⟨c, hc, by rw [closing?, hreason]; rfl⟩

theorem sublist_closings (outcome : Connection → SendResult) (cs : List Connection) :
    ((cs.filterMap (closing? outcome)).map (·.1)).Sublist cs := by
  induction cs with
  | nil => exact .slnil
  | cons c cs ih =>
    rw [List.filterMap_cons, closing?]
    cases closeReason? (outcome c) with
    | none => exact ih.cons c
    | some reason => exact ih.cons_cons c

theorem closeReason?_eq_some {result : SendResult} {reason : CloseReason} :
    closeReason? result = some reason ↔
      (∃ e, result = .failed e) ∧ reason = .sendFailure ∨
        result = .timedOut ∧ reason = .sendTimeout := by
  cases result <;> simp [closeReason?, eq_comm]

/-- In whatever order the deliveries of a block end, just the peers stay to which it was sent. -/
theorem Ordered.settleAll_broadcast (h : n.Ordered) {b : Block} {order : List (Nat × Delivery)}
    (ho : order.Perm (n.broadcast b).2) (outcome : Connection → SendResult) :
    let (after, closings) := (n.broadcast b).1.settleAll (endsOf outcome order)
    after.peerList = n.peerList.filter (outcome · = .sent) ∧
      closings.Perm (n.peerList.filterMap (closing? outcome)) := by
  have hnumbers : (order.map (·.1)).Nodup := (ho.map _).nodup_iff.2 (n.nodup_broadcast b)
  have hconnections : (order.map (·.2.connection)).Perm n.peerList :=
    connections_broadcast n b ▸ ho.map _
  have hall : ∀ send ∈ order, (n.broadcast b).1.deliveries[send.1]? = some send.2 :=
    fun send hs => n.deliveries_dispatch _ send (ho.mem_iff.1 hs)
  obtain ⟨hclosings, hlookups⟩ := settleAll_endsOf outcome hnumbers hall
  have hafter : ((n.broadcast b).1.settleAll (endsOf outcome order)).1.Ordered :=
    Ordered.settleAll (h.dispatch _) _
  refine ⟨eq_of_sorted hafter.sorted_peerList (h.sorted_peerList.filter _) fun c => ?_, ?_⟩
  · rw [hafter.mem_peerList, hlookups, List.mem_filter, decide_eq_true_eq, h.mem_peerList,
      broadcast, peers_dispatch]
    refine and_congr_right fun hc => ⟨fun hsent => ?_, fun hsent send hs hid => ?_⟩
    · obtain ⟨send, hs, rfl⟩ :=
        List.mem_map.1 (hconnections.mem_iff.2 (h.mem_peerList.2 hc))
      exact hsent send hs rfl
    · -- A connection among the peers is known by its id.
      have hpeer := h.mem_peerList.1 (hconnections.mem_iff.1 (List.mem_map_of_mem hs))
      rw [hid, hc] at hpeer
      exact Option.some.inj hpeer ▸ hsent
  · rw [hclosings]
    exact hconnections.filterMap _

theorem announce_eq (n : FullNode) (raw : RawBlock) (ends : List (Nat × SendResult)) :
    n.announce raw ends = (((n.applyBlock raw).1.settleAll ends).1, (n.applyBlock raw).2.1,
      ((n.applyBlock raw).1.settleAll ends).2) := rfl

theorem result_applyBlock (n : FullNode) (raw : RawBlock) :
    (n.applyBlock raw).2.1 = (n.executor.parseBlock raw).2 := by
  rcases hparse : n.executor.parseBlock raw with ⟨x, b | e | -⟩
  · rw [applyBlock_of_ok hparse]
  · rw [applyBlock_of_error hparse]
  · rw [applyBlock_of_never hparse]

theorem broadcast_drops_failing {x : Executor} (hx : x.metrics.peerCount = 0) (steps : List Step)
    (raw : RawBlock) (outcome : Connection → SendResult) :
    let n := run x steps
    let result := (n.executor.parseBlock raw).2
    let sends := (n.applyBlock raw).2.2
    n.peerList.Pairwise (·.id < ·.id) ∧
      n.executor.metrics.peerCount = Int64.ofNat n.peerList.length ∧
      -- Whatever has been reported of deliveries, in full or in part.
      (∀ ends, let (after, answer, _) := n.announce raw ends
        answer = result ∧ after.executor.ledger = (n.executor.parseBlock raw).1.ledger ∧
          after.executor.metrics.peerCount = Int64.ofNat after.peerList.length) ∧
      (∀ e, result = .error e → sends = [] ∧ (n.applyBlock raw).1.peerList = n.peerList) ∧
      (result = .never → sends = [] ∧ (n.applyBlock raw).1.peerList = n.peerList) ∧
      ∀ b, result = .ok b →
        sends.map (fun send => (send.2.connection, send.2.message)) =
          n.peerList.map (·, .newBlock b.raw) ∧
        (sends.map (·.1)).Nodup ∧
        ∀ order, order.Perm sends →
          let (after, _, closings) := n.announce raw (endsOf outcome order)
          after.peerList = n.peerList.filter (outcome · = .sent) ∧
            after.peerList.Pairwise (·.id < ·.id) ∧
            (closings.map (·.1)).Nodup ∧
            ∀ c reason, (c, reason) ∈ closings ↔ c ∈ n.peerList ∧
              ((∃ e, outcome c = .failed e) ∧ reason = .sendFailure ∨
                outcome c = .timedOut ∧ reason = .sendTimeout) := by
  intro n result sends
  have h : n.Ordered := ordered_run hx steps
  refine ⟨h.sorted_peerList, h.peerCount_eq, fun ends => ⟨n.result_applyBlock raw, ?_,
    ((h.applyBlock raw).settleAll ends).peerCount_eq⟩, fun e he => ?_, fun hnever => ?_,
    fun b hb => ?_⟩
  · exact (ledger_settleAll _ ends).trans (congrArg Executor.ledger (n.executor_applyBlock raw))
  · have hparse : n.executor.parseBlock raw = ((n.executor.parseBlock raw).1, .error e) :=
      Prod.ext rfl he
    have happly := applyBlock_of_error hparse
    exact ⟨congrArg (·.2.2) happly, congrArg (·.1.peerList) happly⟩
  · have hparse : n.executor.parseBlock raw = ((n.executor.parseBlock raw).1, .never) :=
      Prod.ext rfl hnever
    have happly := applyBlock_of_never hparse
    exact ⟨congrArg (·.2.2) happly, congrArg (·.1.peerList) happly⟩
  · -- The peers are told by the node that has parsed the block.
    let parsed : FullNode := { n with executor := (n.executor.parseBlock raw).1 }
    have hparsed : parsed.Ordered := h.withExecutor (n.executor.peerCount_parseBlock raw)
    have hparse : n.executor.parseBlock raw = ((n.executor.parseBlock raw).1, .ok b) :=
      Prod.ext rfl hb
    have happly : n.applyBlock raw = ((parsed.broadcast b).1, .ok b, (parsed.broadcast b).2) :=
      applyBlock_of_ok hparse
    have hsends : sends = (parsed.broadcast b).2 := congrArg (·.2.2) happly
    refine ⟨?_, ?_, fun order ho => ?_⟩
    · rw [hsends]
      exact parsed.messages_broadcast b
    · rw [hsends]
      exact parsed.nodup_broadcast b
    · obtain ⟨hpeers, hclosings⟩ := hparsed.settleAll_broadcast (hsends ▸ ho) outcome
      rw [announce_eq, happly]
      refine ⟨hpeers, ?_, ?_, fun c reason => ?_⟩
      · rw [hpeers]
        exact h.sorted_peerList.filter _
      · rw [(hclosings.map _).nodup_iff]
        exact (nodup_of_sorted h.sorted_peerList).sublist (sublist_closings outcome _)
      · rw [hclosings.mem_iff, mem_closings, closeReason?_eq_some]
        rfl

def samplePeer (id : UInt64) : Connection := ⟨id, .v4 ⟨127, 0, 0, 1⟩ 2001⟩

def sampleSteps : List Step :=
  [.event (.connected (samplePeer 3)), .event (.connected (samplePeer 1)),
    .event (.connected (samplePeer 4)), .apply Sample.first, .settle 1 .sent,
    .event (.connected (samplePeer 2)), .event (.received (samplePeer 2) (.getBlocks 10 7)),
    .event (.disconnected (samplePeer 4)), .event (.connected (samplePeer 3))]

def sampleOutcome (c : Connection) : SendResult :=
  if c.id = 1 then .failed (.closed 1) else if c.id = 2 then .timedOut else .sent

theorem dropped_sampleSteps :
    let x := Executor.new Sample.genesis
    let n := run x sampleSteps
    let sends := (n.applyBlock Sample.second).2.2
    let (after, _, closings) := n.announce Sample.second (endsOf sampleOutcome sends.reverse)
    x.metrics.peerCount = 0 ∧ n.peerList = [samplePeer 1, samplePeer 2, samplePeer 3] ∧
      after.peerList = [samplePeer 3] ∧ (samplePeer 1, .sendFailure) ∈ closings ∧
      (samplePeer 2, .sendTimeout) ∈ closings := by
  have hdrops := broadcast_drops_failing (x := .new Sample.genesis) rfl sampleSteps Sample.second
    sampleOutcome
  have hpeers : (run (.new Sample.genesis) sampleSteps).peerList =
      [samplePeer 1, samplePeer 2, samplePeer 3] := by decide +kernel
  have hok : ((run (.new Sample.genesis) sampleSteps).executor.parseBlock
      Sample.second).2.toOption.isSome := by decide +kernel
  dsimp only at hdrops ⊢
  -- The node is no longer computed with.
  generalize run (.new Sample.genesis) sampleSteps = n at *
  obtain ⟨-, -, -, -, -, hall⟩ := hdrops
  obtain ⟨b, hb⟩ := Option.isSome_iff_exists.1 hok
  obtain ⟨hafter, -, -, hclosings⟩ :=
    (hall b (Result.toOption_eq_some.1 hb)).2.2 _ (List.reverse_perm _)
  refine ⟨rfl, hpeers, ?_, ?_, ?_⟩
  · exact hafter.trans (by rw [hpeers]; decide)
  · exact (hclosings _ _).2 ⟨by rw [hpeers]; decide, .inl ⟨⟨_, rfl⟩, rfl⟩⟩
  · exact (hclosings _ _).2 ⟨by rw [hpeers]; decide, .inr ⟨rfl, rfl⟩⟩

end FullNode

end DaoLedger
