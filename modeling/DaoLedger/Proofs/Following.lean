import Mathlib.Data.List.Induction
import DaoLedger.Proofs.Nodes
/-!
A full node and a lite node with a network between them that may lose, delay, repeat and reorder
messages. Main statement: the lite node is always in a state that the full node was in, and in the
state from which its response was built whenever it has applied the response to its own request.
-/
namespace DaoLedger

structure Served where
  request : Nat
  response : BlocksResponse
  ledger : Ledger

/-- Messages that were sent stay here, so that each of them can arrive at any time and any number
of times. -/
structure World where
  full : FullNode
  lite : LiteNode
  queue : List Work
  waiting : Option Nat
  announced : List RawBlock
  requests : List Call
  served : List Served

inductive Step where
  | feed (raw : RawBlock)
  | peer (event : PeerEvent)
  | settled (number : Nat) (result : SendResult)
  | serve (request : Nat) (connection : Connection)
  | announce (number : Nat) (connection : Connection)
  | answer (number : Nat) (connection : Connection)
  | connect (connection : Connection)
  | disconnect (connection : Connection)
  | begin (draw : UInt32)
  | resume
  | abandon (error : NetworkError)

def Delivery.newBlock? : Delivery → Option RawBlock
  | .newBlock _ block => some block
  | .answer .. => none

def Delivery.response? : Delivery → Option BlocksResponse
  | .newBlock .. => none
  | .answer _ response => some response

namespace World

def new (g : Genesis) : World := ⟨.new (.new g), .new (.new g), [], none, [], [], []⟩

def source (w : World) : Ledger := w.full.executor.ledger

def copy (w : World) : Ledger := w.lite.executor.ledger

def serve (w : World) (number : Nat) (call : Call) (c : Connection) : World :=
  let (full, sends) := w.full.handle (.received c call.request)
  let responses := sends.filterMap fun s => s.2.response?
  { w with
    full
    served := w.served ++ responses.map fun r => ⟨number, r, w.source⟩ }

def arrive (w : World) (event : PeerEvent) : World :=
  let (lite, work) := w.lite.route event
  { w with lite, queue := w.queue ++ work.toList }

def request (w : World) (c : Connection) (draw : UInt32) : World :=
  match w.lite.call? c draw with
  | none => w
  | some (lite, call) =>
    { w with lite, waiting := some w.requests.length, requests := w.requests ++ [call] }

def begin (w : World) (draw : UInt32) : Work → World
  | .sync c => w.request c draw
  | .newBlock c raw =>
    match w.lite.takeBlock raw with
    | (lite, some _) => { w with lite }
    | (lite, none) => { w with lite }.request c draw

def call? (w : World) : Option Call := w.waiting.bind fun number => w.requests[number]?

def finish (w : World) (call : Call) (result : Except NetworkError BlocksResponse) : World :=
  { w with lite := (w.lite.finish call result).1, waiting := none }

def step (w : World) : Step → World
  | .feed raw =>
    let (full, _, sends) := w.full.applyBlock raw
    { w with full, announced := w.announced ++ sends.filterMap fun s => s.2.newBlock? }
  | .peer event => { w with full := (w.full.handle event).1 }
  | .settled number result => { w with full := (w.full.settle number result).1 }
  | .serve number c =>
    match w.requests[number]? with
    | none => w
    | some call => w.serve number call c
  | .announce number c =>
    match w.announced[number]? with
    | none => w
    | some raw => w.arrive (.received c (.newBlock raw))
  | .answer number c =>
    match w.served[number]? with
    | none => w
    | some s => w.arrive (.received c (.blocks s.response))
  | .connect c => w.arrive (.connected c)
  | .disconnect c => w.arrive (.disconnected c)
  | .begin draw =>
    match w.waiting, w.queue with
    | none, work :: queue => { w with queue }.begin draw work
    | _, _ => w
  | .resume =>
    match w.call? with
    | none => w
    | some call =>
      match call.answer? w.lite.pending with
      | none => w
      | some result => w.finish call result
  | .abandon error =>
    match w.call? with
    | none => w
    | some call => w.finish call (.error error)

def run (w : World) (steps : List Step) : World := steps.foldl step w

variable {w : World} {g : Genesis} {steps : List Step}

theorem run_append_one (w : World) (steps : List Step) (s : Step) :
    w.run (steps ++ [s]) = (w.run steps).step s := by
  rw [run, List.foldl_append]
  rfl

/-! ### The invariant -/

def Stored (l : Ledger) (raw : RawBlock) : Prop := ∃ b ∈ l.chain, raw = b.raw

structure Fed (g : Genesis) (w : World) : Prop where
  source : Ledger.Built g w.source
  fullRuns : w.full.executor.Runs

/-- The copy is behind the source, and so is everything that is under way between them. -/
structure Synced (g : Genesis) (w : World) : Prop extends Fed g w where
  copy : Ledger.Built g w.copy
  behind : w.copy.chain <:+ w.source.chain
  liteWorks : w.lite.executor.Works
  announced : ∀ raw ∈ w.announced, Stored w.source raw
  queued : ∀ c raw, .newBlock c raw ∈ w.queue → Stored w.source raw
  served : ∀ s ∈ w.served, Ledger.Built g s.ledger ∧ s.ledger.chain <:+ w.source.chain ∧
    ∃ call, w.requests[s.request]? = some call ∧
      s.response = s.ledger.response call.fromHeight call.nonce
  arrived : w.lite.pending.Holds fun response => ∃ s ∈ w.served, s.response = response
  empty : w.copy.chain = [] → ∀ call ∈ w.requests, call.fromHeight = g.blockHeight
  /-- Since the worker sent its request the copy has not changed, and what answers the request was
  built later. -/
  waiting : ∀ number, w.waiting = some number → ∃ call, w.requests[number]? = some call ∧
    call.fromHeight = w.lite.nextHeight ∧
    ∀ s ∈ w.served, s.request = number → w.copy.chain <:+ s.ledger.chain

/-- Only the chain feed changes what the full node stores. -/
theorem full_step (w : World) {s : Step} (hs : ∀ raw, s ≠ .feed raw) :
    ∃ metrics, (w.step s).full.executor = { w.full.executor with metrics } := by
  cases s with
  | feed raw => exact absurd rfl (hs raw)
  | peer event => exact w.full.executor_handle event
  | settled number result => exact w.full.executor_settle number result
  | serve number c =>
    simp only [World.step]
    cases w.requests[number]? with
    | none => exact ⟨_, rfl⟩
    | some call => exact w.full.executor_handle (.received c call.request)
  | announce number c =>
    simp only [World.step]
    cases w.announced[number]? <;> exact ⟨_, rfl⟩
  | answer number c =>
    simp only [World.step]
    cases w.served[number]? <;> exact ⟨_, rfl⟩
  | connect c => exact ⟨_, rfl⟩
  | disconnect c => exact ⟨_, rfl⟩
  | begin draw =>
    have hrequest (w : World) (c : Connection) : (w.request c draw).full = w.full := by
      unfold World.request
      split <;> rfl
    simp only [World.step]
    split
    · next work queue _ _ =>
      cases work with
      | sync c => exact ⟨_, congrArg FullNode.executor (hrequest _ c)⟩
      | newBlock c raw =>
        simp only [World.begin]
        split
        · exact ⟨_, rfl⟩
        · exact ⟨_, congrArg FullNode.executor (hrequest _ c)⟩
    · exact ⟨_, rfl⟩
  | resume =>
    simp only [World.step]
    split
    · exact ⟨_, rfl⟩
    · split <;> exact ⟨_, rfl⟩
  | abandon e =>
    simp only [World.step]
    split <;> exact ⟨_, rfl⟩

/-! ### The full node -/

namespace Fed

theorem new (g : Genesis) : Fed g (.new g) := ⟨.new, (Executor.Works.new g).toRuns⟩

theorem feed (h : Fed g w) {raw : RawBlock} (hn : raw.Named) :
    Fed g (w.step (.feed raw)) ∧ ((w.step (.feed raw)).source.chain = w.source.chain ∨
      ∃ b, (w.step (.feed raw)).source.chain = b :: w.source.chain) := by
  have hx : (w.step (.feed raw)).full.executor = _ := FullNode.executor_applyBlock ..
  rcases Executor.parseBlock_cases h.fullRuns raw with hp | hp
  · rw [hp] at hx
    have hsource : (w.step (.feed raw)).source = w.source := congrArg Executor.ledger hx
    exact ⟨⟨hsource ▸ h.source, hx ▸ h.fullRuns⟩, .inl (by rw [hsource])⟩
  · rw [hp] at hx
    have hsource : (w.step (.feed raw)).source = (w.source.apply raw).1 :=
      (congrArg Executor.ledger hx).trans (Executor.ledger_parseOne h.fullRuns.unbroken raw)
    refine ⟨⟨hsource ▸ h.source.apply_fst hn, hx ▸ h.fullRuns.parseOne raw⟩, ?_⟩
    rw [hsource]
    rcases h.source.apply_chain hn with ⟨b, -, hc⟩ | ⟨he, -⟩
    · exact .inr ⟨b, hc⟩
    · exact .inl (by rw [he])

theorem step (h : Fed g w) {s : Step} (hn : ∀ raw, s = .feed raw → raw.Named) :
    Fed g (w.step s) ∧ ((w.step s).source.chain = w.source.chain ∨
      ∃ b, (w.step s).source.chain = b :: w.source.chain) := by
  by_cases hs : ∃ raw, s = .feed raw
  · obtain ⟨raw, rfl⟩ := hs
    exact h.feed (hn raw rfl)
  · obtain ⟨metrics, hx⟩ := full_step w fun raw he => hs ⟨raw, he⟩
    have hsource : (w.step s).source = w.source := by rw [World.source, hx, World.source]
    exact ⟨⟨hsource ▸ h.source, hx ▸ h.fullRuns.withMetrics metrics⟩, .inl (by rw [hsource])⟩

end Fed

theorem fed_run (hn : ∀ raw, .feed raw ∈ steps → raw.Named) : Fed g ((World.new g).run steps) := by
  induction steps using List.reverseRecOn with
  | nil => exact .new g
  | append_singleton steps s ih =>
    rw [run_append_one]
    have h := ih fun raw hm => hn raw (List.mem_append_left _ hm)
    exact (h.step fun raw he => hn raw (by simp [he])).1

/-- Every part of the chain was once the whole of it. -/
theorem exists_earlier (hn : ∀ raw, .feed raw ∈ steps → raw.Named) {chain : List Block}
    (hs : chain <:+ ((World.new g).run steps).source.chain) :
    ∃ earlier, earlier <+: steps ∧ ((World.new g).run earlier).source.chain = chain := by
  induction steps using List.reverseRecOn with
  | nil => exact ⟨[], List.prefix_refl _, (List.suffix_nil.1 hs).symm⟩
  | append_singleton steps s ih =>
    have hn' : ∀ raw, .feed raw ∈ steps → raw.Named := fun raw hm =>
      hn raw (List.mem_append_left _ hm)
    have hearlier (hs : chain <:+ ((World.new g).run steps).source.chain) :
        ∃ earlier, earlier <+: steps ++ [s] ∧
          ((World.new g).run earlier).source.chain = chain := by
      obtain ⟨earlier, hpre, hc⟩ := ih hn' hs
      exact ⟨earlier, hpre.trans (List.prefix_append ..), hc⟩
    have hlast : ∀ raw, s = .feed raw → raw.Named := fun raw he => hn raw (by simp [he])
    have hfed : Fed g ((World.new g).run steps) := fed_run hn'
    have hstep := (hfed.step hlast).2
    rw [← run_append_one] at hstep
    rcases hstep with heq | ⟨b, heq⟩
    · exact hearlier (heq ▸ hs)
    · rw [heq] at hs
      rcases List.suffix_cons_iff.1 hs with rfl | hs
      · exact ⟨_, List.prefix_refl _, heq⟩
      · exact hearlier hs

namespace Synced

theorem new (g : Genesis) : Synced g (.new g) where
  toFed := .new g
  copy := .new
  behind := List.suffix_refl _
  liteWorks := .new g
  announced := by simp [World.new]
  queued := by simp [World.new]
  served := by simp [World.new]
  arrived := by simp [Pending.Holds, World.new, LiteNode.new, Pending.empty]
  empty := by simp [World.new]
  waiting := by simp [World.new]

theorem stored_mono {l l' : Ledger} (hs : l.chain <:+ l'.chain) {raw : RawBlock}
    (h : Stored l raw) : Stored l' raw := by
  obtain ⟨b, hb, rfl⟩ := h
  exact ⟨b, hs.subset hb, rfl⟩

theorem nextHeight_congr {m n : LiteNode} (h : m.executor.ledger = n.executor.ledger) :
    m.nextHeight = n.nextHeight := by
  rw [LiteNode.nextHeight, LiteNode.nextHeight, h]

/-! ### What each node does keeps it -/

theorem with_full (h : Synced g w) {full : FullNode} {announced : List RawBlock}
    (hb : Ledger.Built g full.executor.ledger)
    (hs : w.source.chain <:+ full.executor.ledger.chain) (hrun : full.executor.Runs)
    (ha : ∀ raw ∈ announced, Stored full.executor.ledger raw) :
    Synced g { w with full, announced } where
  source := hb
  copy := h.copy
  behind := h.behind.trans hs
  fullRuns := hrun
  liteWorks := h.liteWorks
  announced := ha
  queued c raw hq := stored_mono hs (h.queued c raw hq)
  served s hm :=
    have ⟨hbuilt, hsuffix, hcall⟩ := h.served s hm
    ⟨hbuilt, hsuffix.trans hs, hcall⟩
  arrived := h.arrived
  empty := h.empty
  waiting := h.waiting

theorem of_same_source (h : Synced g w) {full : FullNode}
    (hx : ∃ metrics, full.executor = { w.full.executor with metrics }) :
    Synced g { w with full } := by
  obtain ⟨metrics, hx⟩ := hx
  have hl : full.executor.ledger = w.source := by rw [hx, World.source]
  refine h.with_full (hl ▸ h.source) ?_ ?_ (hl ▸ h.announced)
  · exact hl ▸ List.suffix_refl _
  · rw [hx]
    exact h.fullRuns.withMetrics metrics

theorem of_same_copy (h : Synced g w) {lite : LiteNode} {queue : List Work}
    (hl : lite.executor.ledger = w.copy) (hworks : lite.executor.Works)
    (hp : lite.pending.Holds fun response => ∃ s ∈ w.served, s.response = response)
    (hq : ∀ c raw, .newBlock c raw ∈ queue → Stored w.source raw) :
    Synced g { w with lite, queue } where
  source := h.source
  copy := by
    unfold World.copy
    rw [hl]
    exact h.copy
  behind := by
    unfold World.copy
    rw [hl]
    exact h.behind
  fullRuns := h.fullRuns
  liteWorks := hworks
  announced := h.announced
  queued := hq
  served := h.served
  arrived := hp
  empty := by
    unfold World.copy
    rw [hl]
    exact h.empty
  waiting := by
    unfold World.copy
    rw [hl]
    intro number hw
    obtain ⟨call, hcall, hheight, hserved⟩ := h.waiting number hw
    exact ⟨call, hcall, hheight.trans (nextHeight_congr hl).symm, hserved⟩

theorem advance (h : Synced g w) {lite : LiteNode}
    (hx : Executor.Advances g w.source w.lite.executor lite.executor)
    (hp : lite.pending.Holds fun response => ∃ s ∈ w.served, s.response = response) :
    Synced g { w with lite, waiting := none } where
  source := h.source
  copy := hx.built
  behind := hx.behind
  fullRuns := h.fullRuns
  liteWorks := hx.works
  announced := h.announced
  queued := h.queued
  served := h.served
  arrived := hp
  empty hnil := by
    have hnil' : lite.executor.ledger.chain = [] := hnil
    have hs := hx.grown
    rw [hnil'] at hs
    exact h.empty (List.suffix_nil.1 hs)
  waiting := by simp

/-! ### Steps of the full node keep it -/

theorem feed (h : Synced g w) {raw : RawBlock} (hn : raw.Named) :
    Synced g (w.step (.feed raw)) := by
  obtain ⟨hfed, hgrown⟩ := h.toFed.feed hn
  have hsuffix : w.source.chain <:+ (w.step (.feed raw)).source.chain := by
    rcases hgrown with heq | ⟨b, heq⟩
    · exact heq ▸ List.suffix_refl _
    · rw [heq]
      exact List.suffix_cons ..
  refine @with_full w g h (w.full.applyBlock raw).1 _ hfed.source hsuffix hfed.fullRuns
    fun block hm => ?_
  rcases List.mem_append.1 hm with hm | hm
  · exact stored_mono hsuffix (h.announced block hm)
  · obtain ⟨⟨number, d⟩, hd, hnew⟩ := List.mem_filterMap.1 hm
    obtain ⟨b, c, hok, rfl⟩ := FullNode.sends_applyBlock (List.mem_map_of_mem hd)
    obtain ⟨hledger, hok⟩ := Executor.parseBlock_eq_ok h.fullRuns hok
    have hsource : (w.full.applyBlock raw).1.executor.ledger = (w.source.apply raw).1 := by
      rw [FullNode.executor_applyBlock, hledger]
      rfl
    cases hnew
    rcases h.source.apply_chain hn with ⟨b', hok', hc⟩ | ⟨-, hnone⟩
    · obtain rfl : b = b' := Result.ok.inj (hok.symm.trans hok')
      exact ⟨b, by rw [hsource, hc]; exact List.mem_cons_self, rfl⟩
    · have hok : (w.source.apply raw).2 = .ok b := hok
      rw [hok] at hnone
      cases hnone

theorem serve_cases (w : World) (number : Nat) (call : Call) (c : Connection) :
    let full := (w.full.handle (.received c call.request)).1
    w.serve number call c = { w with full } ∨ w.serve number call c = { w with
      full
      served := w.served ++
        [⟨number, w.source.response call.fromHeight call.nonce, w.source⟩] } := by
  simp only [World.serve, Call.request, FullNode.handle, FullNode.serve]
  cases w.full.executor.stuck with
  | true => exact .inl (congrArg (fun served => { w with served }) (List.append_nil _))
  | false => exact .inr rfl

theorem serve (h : Synced g w) {number : Nat} {call : Call}
    (hcall : w.requests[number]? = some call) (c : Connection) :
    Synced g (w.serve number call c) := by
  have hfull := h.of_same_source (w.full.executor_handle (.received c call.request))
  rcases serve_cases w number call c with hserve | hserve
  · rw [hserve]
    exact hfull
  rw [hserve]
  exact { hfull with
    served := fun s hm => by
      rcases List.mem_append.1 hm with hm | hm
      · exact hfull.served s hm
      · rw [List.mem_singleton.1 hm]
        obtain ⟨metrics, hx⟩ := w.full.executor_handle (.received c call.request)
        have hsource : (w.full.handle (.received c call.request)).1.executor.ledger = w.source := by
          rw [hx, World.source]
        refine ⟨h.source, ?_, call, hcall, rfl⟩
        exact (congrArg Ledger.chain hsource.symm) ▸ List.suffix_refl _
    arrived := fun channel hc response hr => by
      obtain ⟨s, hm, hs⟩ := hfull.arrived channel hc response hr
      exact ⟨s, List.mem_append_left _ hm, hs⟩
    waiting := fun number' hw => by
      obtain ⟨call', hcall', hheight, hserved⟩ := hfull.waiting number' hw
      refine ⟨call', hcall', hheight, fun s hm hs => ?_⟩
      rcases List.mem_append.1 hm with hm | hm
      · exact hserved s hm hs
      · rw [List.mem_singleton.1 hm]
        exact h.behind }

/-! ### Steps of the lite node -/

def Expected (w : World) : PeerEvent → Prop
  | .connected _ | .disconnected _ => True
  | .received _ (.newBlock raw) => Stored w.source raw
  | .received _ (.blocks response) => ∃ s ∈ w.served, s.response = response
  | .received _ (.getBlocks ..) => False

theorem arrive (h : Synced g w) {event : PeerEvent} (he : Expected w event) :
    Synced g (w.arrive event) := by
  have hqueue (more : List Work) (hm : ∀ c raw, .newBlock c raw ∈ more → Stored w.source raw) :
      ∀ c raw, .newBlock c raw ∈ w.queue ++ more → Stored w.source raw := fun c raw hq =>
    (List.mem_append.1 hq).elim (h.queued c raw) (hm c raw)
  cases event with
  | connected c =>
    unfold World.arrive LiteNode.route
    dsimp only
    split
    · exact h.of_same_copy rfl (h.liteWorks.withMetrics _) h.arrived (hqueue _ (by simp))
    · exact h.of_same_copy rfl (h.liteWorks.withMetrics _) h.arrived (hqueue _ (by simp))
  | disconnected c =>
    unfold World.arrive LiteNode.route
    dsimp only
    split
    · exact h.of_same_copy rfl (h.liteWorks.withMetrics _) h.arrived (hqueue _ (by simp))
    · exact h.of_same_copy rfl (h.liteWorks.withMetrics _) h.arrived (hqueue _ (by simp))
  | received c message =>
    cases message with
    | getBlocks fromHeight nonce => cases he
    | blocks response =>
      exact h.of_same_copy rfl h.liteWorks (h.arrived.resolve he) (hqueue _ (by simp))
    | newBlock raw =>
      refine h.of_same_copy rfl h.liteWorks h.arrived (hqueue _ fun c' raw' hm => ?_)
      cases List.mem_singleton.1 hm
      exact he

theorem request (h : Synced g w) (c : Connection) (draw : UInt32) :
    Synced g (w.request c draw) := by
  unfold World.request
  cases hc : w.lite.call? c draw with
  | none => exact h
  | some r =>
    obtain ⟨lite, call⟩ := r
    obtain ⟨hheight, nonce, pending, number, hregister, rfl⟩ := LiteNode.call?_eq_some hc
    have hsame : Synced g { w with lite := { w.lite with pending }, queue := w.queue } :=
      h.of_same_copy rfl h.liteWorks (h.arrived.register hregister) h.queued
    have hold {number : Nat} {call' : Call} (hcall : w.requests[number]? = some call') :
        (w.requests ++ [call])[number]? = some call' := by
      rw [List.getElem?_append_left (List.getElem?_eq_some_iff.1 hcall).1]
      exact hcall
    exact { hsame with
      served := fun s hm => by
        obtain ⟨hb, hs, call', hcall', hresponse⟩ := h.served s hm
        exact ⟨hb, hs, call', hold hcall', hresponse⟩
      empty := fun hnil call' hm => by
        rcases List.mem_append.1 hm with hm | hm
        · exact h.empty hnil call' hm
        · rw [List.mem_singleton.1 hm, hheight]
          exact LiteNode.nextHeight_of_nil h.copy hnil
      waiting := fun number hn => by
        cases hn
        refine ⟨call, List.getElem?_concat_length, hheight, fun s hm hs => ?_⟩
        -- What was sent before answers earlier requests.
        obtain ⟨-, -, call', hcall', -⟩ := h.served s hm
        have hlt := (List.getElem?_eq_some_iff.1 hcall').1
        omega }

theorem takeBlock (h : Synced g w) (hd : (w.source.chain.map (·.hash)).Nodup)
    (hw : w.waiting = none) {raw : RawBlock} (hs : Stored w.source raw) :
    Synced g { w with lite := (w.lite.takeBlock raw).1 } := by
  obtain ⟨b, hb, rfl⟩ := hs
  have hpending : (w.lite.takeBlock b.raw).1.pending = w.lite.pending := by
    rcases LiteNode.takeBlock_of_works h.liteWorks b.raw with he | ⟨-, -, he⟩ <;> rw [he]
  have hsame := h.advance (LiteNode.takeBlock_stored h.source hd h.liteWorks h.copy h.behind hb)
    (by rw [hpending]; exact h.arrived)
  rw [← hw] at hsame
  exact hsame

theorem begin (h : Synced g w) (hd : (w.source.chain.map (·.hash)).Nodup)
    (hw : w.waiting = none) (draw : UInt32) {work : Work}
    (hs : ∀ c raw, work = .newBlock c raw → Stored w.source raw) :
    Synced g (w.begin draw work) := by
  cases work with
  | sync c => exact h.request c draw
  | newBlock c raw =>
    have htake := h.takeBlock hd hw (hs c raw rfl)
    simp only [World.begin]
    revert htake
    rcases w.lite.takeBlock raw with ⟨lite, _ | outcome⟩
    · exact fun htake => htake.request c draw
    · exact id

theorem finish_error (h : Synced g w) (call : Call) (e : NetworkError) :
    Synced g (w.finish call (.error e)) :=
  h.advance ⟨h.copy, List.suffix_refl _, h.behind, h.liteWorks⟩ (h.arrived.leave call)

/-- Whatever part of a response has been applied, the copy is behind the source. -/
theorem applied (h : Synced g w) (hd : (w.source.chain.map (·.hash)).Nodup) {s : Served}
    (hs : s ∈ w.served) {applied : List RawBlock} (ha : applied <+: w.lite.fresh s.response) :
    Executor.Advances g w.source w.lite.executor (w.lite.executor.parseBatch applied).1 := by
  obtain ⟨hserved, hsuffix, call, hcall, hresponse⟩ := h.served s hs
  rw [hresponse] at ha
  exact LiteNode.parseBatch_fresh h.source hd h.liteWorks h.copy h.behind hserved hsuffix
    (fun hnil => h.empty hnil call (List.mem_of_getElem? hcall)) ha

theorem finish_ok (h : Synced g w) (hd : (w.source.chain.map (·.hash)).Nodup) (call : Call)
    {s : Served} (hs : s ∈ w.served) : Synced g (w.finish call (.ok s.response)) := by
  let n : LiteNode := { w.lite with pending := call.leave w.lite.pending }
  have hn : (w.lite.finish call (.ok s.response)).1 = (n.applyNew s.response.blocks).1 := rfl
  have happly : (n.applyNew s.response.blocks).1 =
      { n with executor := (n.executor.parseBatch (w.lite.fresh s.response)).1 } :=
    @LiteNode.applyNew_of_works n h.liteWorks s.response
  unfold World.finish
  rw [hn, happly]
  exact h.advance (h.applied hd hs (List.prefix_refl _)) (h.arrived.leave call)

theorem begin_next (h : Synced g w) (hd : (w.source.chain.map (·.hash)).Nodup) (draw : UInt32) :
    Synced g (w.step (.begin draw)) := by
  simp only [World.step]
  cases hw : w.waiting with
  | some number => exact h
  | none =>
    cases hq : w.queue with
    | nil => exact h
    | cons work queue =>
      have hqueue : ∀ c raw, .newBlock c raw ∈ queue → Stored w.source raw := fun c raw hm =>
        h.queued c raw (by rw [hq]; exact List.mem_cons_of_mem _ hm)
      have hsame : Synced g { w with lite := w.lite, queue } :=
        h.of_same_copy rfl h.liteWorks h.arrived hqueue
      have hwork : ∀ c raw, work = .newBlock c raw → Stored w.source raw := fun c raw heq =>
        h.queued c raw (by rw [hq, heq]; exact List.mem_cons_self)
      have hbegin := hsame.begin hd hw draw hwork
      rw [hw] at hbegin
      exact hbegin

theorem resume (h : Synced g w) (hd : (w.source.chain.map (·.hash)).Nodup) :
    Synced g (w.step .resume) := by
  simp only [World.step]
  cases hcall : w.call? with
  | none => exact h
  | some call =>
    dsimp only
    cases ha : call.answer? w.lite.pending with
    | none => exact h
    | some result =>
      cases result with
      | error e => exact h.finish_error call e
      | ok response =>
        obtain ⟨s, hs, rfl⟩ := h.arrived.answer ha
        exact h.finish_ok hd call hs

/-! ### Runs -/

theorem step (h : Synced g w) (hd : (w.source.chain.map (·.hash)).Nodup) {s : Step}
    (hn : ∀ raw, s = .feed raw → raw.Named) : Synced g (w.step s) := by
  cases s with
  | feed raw => exact h.feed (hn raw rfl)
  | peer event => exact h.of_same_source (w.full.executor_handle event)
  | settled number result => exact h.of_same_source (w.full.executor_settle number result)
  | serve number c =>
    simp only [World.step]
    cases hcall : w.requests[number]? with
    | none => exact h
    | some call => exact h.serve hcall c
  | announce number c =>
    simp only [World.step]
    cases hraw : w.announced[number]? with
    | none => exact h
    | some raw => exact h.arrive (h.announced raw (List.mem_of_getElem? hraw))
  | answer number c =>
    simp only [World.step]
    cases hs : w.served[number]? with
    | none => exact h
    | some s => exact h.arrive ⟨s, List.mem_of_getElem? hs, rfl⟩
  | connect c =>
    have he : Expected w (.connected c) := trivial
    exact h.arrive he
  | disconnect c =>
    have he : Expected w (.disconnected c) := trivial
    exact h.arrive he
  | begin draw => exact h.begin_next hd draw
  | resume => exact h.resume hd
  | abandon e =>
    simp only [World.step]
    cases hcall : w.call? with
    | none => exact h
    | some call => exact h.finish_error call e

end Synced

theorem synced_run (hn : ∀ raw, .feed raw ∈ steps → raw.Named)
    (hd : (((World.new g).run steps).source.chain.map (·.hash)).Nodup) :
    Synced g ((World.new g).run steps) := by
  induction steps using List.reverseRecOn with
  | nil => exact .new g
  | append_singleton steps s ih =>
    have hn' : ∀ raw, .feed raw ∈ steps → raw.Named := fun raw hm =>
      hn raw (List.mem_append_left _ hm)
    have hs : ∀ raw, s = .feed raw → raw.Named := fun raw he => hn raw (by simp [he])
    rw [run_append_one] at hd ⊢
    have hgrown : ((World.new g).run steps).source.chain <:+
        (((World.new g).run steps).step s).source.chain := by
      rcases ((fed_run hn').step hs).2 with heq | ⟨b, heq⟩
      · exact heq ▸ List.suffix_refl _
      · rw [heq]
        exact List.suffix_cons ..
    -- The chain only grows, so its hashes differed before this step too.
    have hd' := hd.sublist (hgrown.sublist.map _)
    exact (ih hn' hd').step hd' hs

/-- What came for a request that is being waited for brings the copy to the ledger from which it
was built. -/
theorem Synced.copy_resume (h : Synced g w) {number : Nat} {call : Call} {s : Served}
    (hw : w.waiting = some number) (hcall : w.requests[number]? = some call) (hs : s ∈ w.served)
    (hnumber : s.request = number) (ha : call.answer? w.lite.pending = some (.ok s.response)) :
    (w.step .resume).copy = s.ledger := by
  obtain ⟨hserved, -, call', hcall', hresponse⟩ := h.served s hs
  obtain ⟨call'', hcall'', hheight, hlater⟩ := h.waiting number hw
  rw [hnumber, hcall, Option.some.injEq] at hcall'
  rw [hcall, Option.some.injEq] at hcall''
  subst hcall' hcall''
  have hcurrent : w.call? = some call := by rw [World.call?, hw, Option.bind_some, hcall]
  let n : LiteNode := { w.lite with pending := call.leave w.lite.pending }
  have hstep : (w.step .resume).copy = (n.applyNew s.response.blocks).1.executor.ledger := by
    simp only [World.step, hcurrent, ha]
    rfl
  rw [hstep, hresponse, hheight]
  exact @LiteNode.apply_response n g s.ledger hserved h.liteWorks h.copy (hlater s hs hnumber) _

/-- A full node that only applies blocks, whose hashes differ, and a lite node that begins with the
same genesis. -/
theorem copy_of_run (g : Genesis) (steps : List Step) (hn : ∀ raw, .feed raw ∈ steps → raw.Named)
    (hd : (((World.new g).run steps).source.chain.map (·.hash)).Nodup) :
    let w := (World.new g).run steps
    (∃ earlier, earlier <+: steps ∧ ((World.new g).run earlier).source = w.copy) ∧
      -- While it applies the blocks of a response one after another.
      (∀ call response, w.call? = some call →
        call.answer? w.lite.pending = some (.ok response) →
        ∀ applied, applied <+: w.lite.fresh response → ∃ earlier, earlier <+: steps ∧
          ((World.new g).run earlier).source = (w.lite.executor.parseBatch applied).1.ledger) ∧
      ∀ number call, ∀ s ∈ w.served, w.waiting = some number →
        w.requests[number]? = some call → s.request = number →
        call.answer? w.lite.pending = some (.ok s.response) →
        (w.step .resume).copy = s.ledger := by
  intro w
  have h : Synced g w := synced_run hn hd
  have hearlier {l : Ledger} (hl : Ledger.Built g l) (hs : l.chain <:+ w.source.chain) :
      ∃ earlier, earlier <+: steps ∧ ((World.new g).run earlier).source = l := by
    obtain ⟨earlier, hpre, hc⟩ := exists_earlier hn hs
    have hfed : Fed g ((World.new g).run earlier) := fed_run fun raw hm => hn raw (hpre.subset hm)
    exact ⟨earlier, hpre, hfed.source.eq_of_chain hl hc⟩
  refine ⟨hearlier h.copy h.behind, ?_, ?_⟩
  · intro call response _ ha applied hpre
    obtain ⟨s, hs, rfl⟩ := h.arrived.answer ha
    have hx := h.applied hd hs hpre
    exact hearlier hx.built hx.behind
  · exact fun number call s hs hw hcall hnumber ha => h.copy_resume hw hcall hs hnumber ha

def samplePeer : Connection := ⟨1, .v4 ⟨127, 0, 0, 1⟩ 2001⟩

def sampleSteps : List Step :=
  [.peer (.connected samplePeer), .feed Sample.first, .connect samplePeer, .begin 0,
    .serve 0 samplePeer, .feed Sample.second, .announce 1 samplePeer, .answer 0 samplePeer]

theorem copy_sampleSteps :
    let w := (World.new Sample.genesis).run sampleSteps
    (∀ raw, .feed raw ∈ sampleSteps → raw.Named) ∧
      w.source.chain.map (·.hash) = [⟨"b"⟩, ⟨"a"⟩] ∧ (w.source.chain.map (·.hash)).Nodup ∧
      (∃ earlier, earlier <+: sampleSteps ∧
        ((World.new Sample.genesis).run earlier).source = w.copy) ∧
      ∃ s ∈ w.served, s.ledger.chain.map (·.hash) = [⟨"a"⟩] ∧
        (w.step .resume).copy = s.ledger := by
  intro w
  have hn : ∀ raw, .feed raw ∈ sampleSteps → raw.Named := by
    intro raw h
    simp only [sampleSteps, List.mem_cons, Step.feed.injEq, reduceCtorEq, List.not_mem_nil,
      or_false, false_or] at h
    rcases h with rfl | rfl <;> decide
  have hhashes : w.source.chain.map (·.hash) = [⟨"b"⟩, ⟨"a"⟩] := by decide +kernel
  have hd : (w.source.chain.map (·.hash)).Nodup := by
    rw [hhashes]
    decide
  obtain ⟨hearlier, -, hresume⟩ := copy_of_run Sample.genesis sampleSteps hn hd
  have hserved : 0 < w.served.length := by decide +kernel
  have hrequest : w.served[0].request = 0 := by decide +kernel +revert
  have hwaiting : w.waiting = some 0 := by decide +kernel
  let call : Call := ⟨samplePeer, 10, 0, 0⟩
  have hcall : w.requests[0]? = some call := by decide +kernel
  have ha : call.answer? w.lite.pending = some (.ok w.served[0].response) := by
    decide +kernel +revert
  exact ⟨hn, hhashes, hd, hearlier, w.served[0], List.getElem_mem hserved, by decide +kernel +revert,
    hresume 0 call _ (List.getElem_mem hserved) hwaiting hcall hrequest ha⟩

end World

end DaoLedger
