import DaoLedger.Proofs.Channels
import DaoLedger.Proofs.Tiling
import DaoLedger.Sync.Serving
import Mathlib.Data.List.Induction
/-!
A server of blocks under any interleaving of requests, stops and ends of sending. Main statement:
each request is settled by the first result of its own sending, if neither a stop nor another
request comes before that, and by nothing else; its receiver takes one outcome at most. The response
has exactly the stored blocks from the height on that was asked for.
-/
namespace DaoLedger

/-! ### The blocks of a response -/

theorem takeWhile_eq_filter {α : Type} {p : α → Bool} {xs : List α}
    (h : xs.Pairwise fun a b => p b → p a) : xs.takeWhile p = xs.filter p := by
  induction xs with
  | nil => rfl
  | cons x xs ih =>
    obtain ⟨hx, hxs⟩ := List.pairwise_cons.1 h
    by_cases hp : p x
    · rw [List.takeWhile_cons_of_pos hp, List.filter_cons_of_pos hp, ih hxs]
    · have hnone : xs.filter p = [] := List.filter_eq_nil_iff.2 fun y hy hpy => hp (hx y hy hpy)
      rw [List.takeWhile_cons_of_neg hp, List.filter_cons_of_neg hp, hnone]

namespace Ledger
variable {l l' : Ledger}

def OfWrites (l : Ledger) : Prop := ∃ g ws, l = (Ledger.new g).writeAll ws

theorem heights_step {w : Write} (h : (l.chain.map (·.height)).Pairwise (· > ·))
    (hl : Timing l w l') : (l'.chain.map (·.height)).Pairwise (· > ·) := by
  cases hl with
  | opened hm => exact heights_opened h hm
  | removed hr => exact heights_removeTip h hr
  | same hs =>
    rw [hs.heights]
    exact h

theorem heights_writeAll (h : (l.chain.map (·.height)).Pairwise (· > ·)) (ws : List Write) :
    ((l.writeAll ws).chain.map (·.height)).Pairwise (· > ·) := by
  induction ws generalizing l with
  | nil => exact h
  | cons w ws ih => exact ih (heights_step h (timing_write l w))

theorem OfWrites.blocksFrom_eq (h : l.OfWrites) (height : UInt32) :
    l.blocksFrom height = l.blocks.filter (height ≤ ·.height) := by
  obtain ⟨g, ws, rfl⟩ := h
  have hheights := List.pairwise_map.1 (heights_writeAll (Timed.new g).heights ws)
  rw [blocksFrom, takeWhile_eq_filter, blocks, List.filter_reverse]
  refine hheights.imp fun {newer older} hlt hle => decide_eq_true ?_
  exact UInt32.le_trans (of_decide_eq_true hle) (UInt32.le_of_lt hlt)

end Ledger

/-! ### Runs of a server -/

structure BlocksQuery where
  ledger : Ledger
  fromHeight : UInt32
  nonce : UInt32
  connection : Connection

namespace BlocksServer

inductive Step where
  | request (query : BlocksQuery)
  | stop
  | settle (number : Nat) (result : SendResult)
  | receive (number : Nat)
  | dropReceiver (number : Nat)

namespace Step

def isRequest : Step → Bool
  | .request _ => true
  | _ => false

/-- How a step ends a request that came in before it: with the result of its sending, or without
one. -/
def ending? (number : Nat) : Step → Option (Option SendResult)
  | .request _ | .stop => some none
  | .settle n result => if n = number then some (some result) else none
  | .receive _ | .dropReceiver _ => none

def spares (number : Nat) : Step → Bool
  | .dropReceiver n => n ≠ number
  | .request _ | .stop | .settle _ _ | .receive _ => true

end Step

def requests (steps : List Step) : Nat := steps.countP Step.isRequest

def ending? (number : Nat) (after : List Step) : Option (Option SendResult) :=
  after.findSome? (·.ending? number)

/-- A server with the outcomes that its receivers have taken, by number. -/
structure Run where
  server : BlocksServer
  taken : List (Nat × Outcome)

namespace Run

def start : Run := ⟨.new, []⟩

def step (r : Run) : Step → Run
  | .request q =>
    { r with server := (r.server.request q.ledger q.fromHeight q.nonce q.connection).1 }
  | .stop => { r with server := r.server.stop }
  | .settle number result => { r with server := r.server.settle number result }
  | .receive number =>
    let (server, receipt) := r.server.receive number
    ⟨server, r.taken ++ receipt.value?.toList.map (number, ·)⟩
  | .dropReceiver number => { r with server := r.server.dropReceiver number }

def outcomes (r : Run) (number : Nat) : List Outcome := takenFrom r.taken number

end Run

def run (steps : List Step) : Run := steps.foldl Run.step .start

theorem run_append_one (steps : List Step) (step : Step) :
    run (steps ++ [step]) = (run steps).step step := by
  rw [run, List.foldl_append]
  rfl

theorem ending?_append_one (number : Nat) (after : List Step) (step : Step) :
    ending? number (after ++ [step]) = (ending? number after).or (step.ending? number) := by
  simp [ending?, List.findSome?_append]

theorem all_spares {number : Nat} {after : List Step} (h : .dropReceiver number ∉ after) :
    after.all (·.spares number) = true := by
  refine List.all_eq_true.2 fun step hs => ?_
  cases step with
  | dropReceiver n => exact decide_eq_true fun he => h (he ▸ hs)
  | _ => rfl

theorem all_spares_of_mem {number : Nat} {after : List Step} (h : .dropReceiver number ∈ after) :
    after.all (·.spares number) = false :=
  List.all_eq_false.2 ⟨_, h, by simp [Step.spares]⟩

/-! ### One request -/

section
variable {s : BlocksServer} {number n : Nat} {a : Answer}

theorem getElem?_change_self (h : s.answers[number]? = some a)
    (f : OneShot Outcome → OneShot Outcome) :
    (s.change number f).answers[number]? = some { a with outcome := f a.outcome } := by
  simp [change, h]

theorem getElem?_change_of_ne (h : n ≠ number) (f : OneShot Outcome → OneShot Outcome) :
    (s.change n f).answers[number]? = s.answers[number]? := by
  simp [change, h]

theorem length_change (s : BlocksServer) (number : Nat) (f : OneShot Outcome → OneShot Outcome) :
    (s.change number f).answers.length = s.answers.length :=
  List.length_modify ..

theorem current_stop (s : BlocksServer) : s.stop.current = none := by
  cases hc : s.current <;> simp [stop, hc]

theorem length_stop (s : BlocksServer) : s.stop.answers.length = s.answers.length := by
  cases hc : s.current with
  | none => simp [stop, hc]
  | some number => simp [stop, hc, length_change]

theorem getElem?_stop_of_current (hc : s.current = some number) (h : s.answers[number]? = some a) :
    s.stop.answers[number]? = some { a with outcome := a.outcome.cancel.1 } := by
  simp only [stop, hc]
  exact getElem?_change_self h _

theorem getElem?_stop_of_ne (hc : s.current ≠ some number) :
    s.stop.answers[number]? = s.answers[number]? := by
  cases hn : s.current with
  | none => simp only [stop, hn]
  | some n =>
    simp only [stop, hn]
    exact getElem?_change_of_ne (fun he => hc (hn.trans (congrArg some he))) _

theorem change_id (s : BlocksServer) (number : Nat) : s.change number id = s :=
  congrArg (BlocksServer.mk · s.current) (List.modify_id ..)

theorem settle_eq (h : s.answers[number]? = some a) (result : SendResult) :
    s.settle number result =
      s.change number fun c => (c.complete (.of a.connection a.response result)).1 := by
  simp only [settle, h]

theorem exists_change_settle (s : BlocksServer) (number : Nat) (result : SendResult) :
    ∃ f, s.settle number result = s.change number f := by
  cases h : s.answers[number]? with
  | none => exact ⟨id, by simp only [settle, h, change_id]⟩
  | some a => exact ⟨_, settle_eq h result⟩

theorem receive_eq (h : s.answers[number]? = some a) :
    s.receive number = (s.change number fun c => c.receive.1, a.outcome.receive.2) := by
  simp only [receive, h]

theorem receive_of_none (h : s.answers[number]? = none) : s.receive number = (s, .dropped) := by
  simp only [receive, h]

theorem exists_change_receive (s : BlocksServer) (number : Nat) :
    ∃ f, (s.receive number).1 = s.change number f := by
  cases h : s.answers[number]? with
  | none => exact ⟨id, by rw [receive_of_none h, change_id]⟩
  | some a => exact ⟨fun c => c.receive.1, congrArg Prod.fst (receive_eq h)⟩

end

section
variable {r r' : Run} {number n : Nat} {connection : Connection} {response : BlocksResponse}
  {ending : Option (Option SendResult)} {heard : Bool} {f : OneShot Outcome → OneShot Outcome}

theorem outcomes_receive (r : Run) (n number : Nat) :
    (r.step (.receive n)).outcomes number = r.outcomes number ++
      if n = number then (r.server.receive n).2.value?.toList else [] :=
  takenFrom_append ..

/-- Request `number` of a run, with its connection and its response: how it ended, what was taken of
its outcome and whether its receiver is still there. Unless it has ended it is the current one. -/
structure Tracks (r : Run) (number : Nat) (connection : Connection) (response : BlocksResponse)
    (ending : Option (Option SendResult)) (heard : Bool) : Prop where
  channel : ∃ c, r.server.answers[number]? = some ⟨connection, response, c⟩ ∧
    c.Stands (ending.map (·.map (.of connection response))) (r.outcomes number) ∧ c.heard = heard
  current : ending = none → r.server.current = some number

namespace Tracks

theorem of_change_of_ne (h : Tracks r number connection response ending heard) (hn : n ≠ number)
    (hs : r'.server = r.server.change n f) (ho : r'.outcomes number = r.outcomes number) :
    Tracks r' number connection response ending heard where
  channel := by
    rw [hs, ho, getElem?_change_of_ne hn]
    exact h.channel
  current := by
    rw [hs]
    exact h.current

theorem stop (h : Tracks r number connection response ending heard) :
    ∃ c, r.server.stop.answers[number]? = some ⟨connection, response, c⟩ ∧
      c.Stands ((ending.or (some none)).map (·.map (.of connection response)))
        (r.outcomes number) ∧ c.heard = heard := by
  obtain ⟨c, ha, hstands, hheard⟩ := h.channel
  by_cases hc : r.server.current = some number
  · refine ⟨c.cancel.1, getElem?_stop_of_current hc ha, ?_, by rw [c.heard_cancel, hheard]⟩
    rw [Option.map_or]
    exact hstands.cancel
  · -- It has ended before, and its first end stays.
    obtain ⟨e, rfl⟩ := Option.ne_none_iff_exists'.1 (mt h.current hc)
    exact ⟨c, (getElem?_stop_of_ne hc).trans ha, hstands, hheard⟩

theorem settle (h : Tracks r number connection response ending heard) (result : SendResult) :
    Tracks (r.step (.settle number result)) number connection response
      (ending.or (some (some result))) heard := by
  obtain ⟨c, ha, hstands, hheard⟩ := h.channel
  refine ⟨⟨(c.complete (.of connection response result)).1, ?_, ?_, ?_⟩, fun hnone => ?_⟩
  · exact (congrArg (·.answers[number]?) (settle_eq ha result)).trans (getElem?_change_self ha _)
  · rw [Option.map_or]
    exact hstands.complete _
  · rw [c.heard_complete, hheard]
  · cases (Option.or_eq_none_iff.1 hnone).2

theorem receive (h : Tracks r number connection response ending heard) :
    Tracks (r.step (.receive number)) number connection response ending heard := by
  obtain ⟨c, ha, hstands, hheard⟩ := h.channel
  have hserver : (r.step (.receive number)).server = r.server.change number fun c => c.receive.1 :=
    congrArg Prod.fst (receive_eq ha)
  refine ⟨⟨c.receive.1, ?_, ?_, ?_⟩, fun hnone => ?_⟩
  · rw [hserver, getElem?_change_self ha]
  · rw [outcomes_receive, if_pos rfl, receive_eq ha]
    exact hstands.receive
  · rw [c.heard_receive, hheard]
  · rw [hserver]
    exact h.current hnone

theorem dropReceiver (h : Tracks r number connection response ending heard) :
    Tracks (r.step (.dropReceiver number)) number connection response ending false := by
  obtain ⟨c, ha, hstands, -⟩ := h.channel
  exact ⟨⟨_, getElem?_change_self ha _, hstands.dropReceiver, rfl⟩, h.current⟩

theorem request (h : Tracks r number connection response ending heard) (q : BlocksQuery) :
    Tracks (r.step (.request q)) number connection response (ending.or (some none)) heard := by
  obtain ⟨c, ha, hstands⟩ := h.stop
  refine ⟨⟨c, ?_, hstands⟩, fun hnone => ?_⟩
  · have hlt := (List.getElem?_eq_some_iff.1 ha).1
    exact (List.getElem?_append_left hlt).trans ha
  · cases (Option.or_eq_none_iff.1 hnone).2

theorem step (h : Tracks r number connection response ending heard) (step : Step) :
    Tracks (r.step step) number connection response (ending.or (step.ending? number))
      (heard && step.spares number) := by
  cases step with
  | request q =>
    rw [Step.spares, Bool.and_true]
    exact h.request q
  | stop =>
    rw [Step.spares, Bool.and_true]
    exact ⟨h.stop, fun hnone => nomatch (Option.or_eq_none_iff.1 hnone).2⟩
  | settle n result =>
    rw [Step.spares, Bool.and_true, Step.ending?]
    by_cases hn : n = number
    · rw [if_pos hn, hn]
      exact h.settle result
    · obtain ⟨f, hf⟩ := r.server.exists_change_settle n result
      rw [if_neg hn, Option.or_none]
      exact h.of_change_of_ne hn hf rfl
  | receive n =>
    rw [Step.spares, Bool.and_true, Step.ending?, Option.or_none]
    by_cases hn : n = number
    · rw [hn]
      exact h.receive
    · obtain ⟨f, hf⟩ := r.server.exists_change_receive n
      exact h.of_change_of_ne hn hf (by rw [outcomes_receive, if_neg hn, List.append_nil])
  | dropReceiver n =>
    rw [Step.ending?, Option.or_none]
    by_cases hn : n = number
    · have hspares : (Step.dropReceiver n).spares number = false := by simp [Step.spares, hn]
      rw [hspares, Bool.and_false, hn]
      exact h.dropReceiver
    · have hspares : (Step.dropReceiver n).spares number = true := by simp [Step.spares, hn]
      rw [hspares, Bool.and_true]
      exact h.of_change_of_ne hn rfl rfl

end Tracks

/-! ### Whole runs -/

theorem length_step (r : Run) (step : Step) :
    (r.step step).server.answers.length =
      r.server.answers.length + if step.isRequest then 1 else 0 := by
  cases step with
  | request q => exact (List.length_append ..).trans (congrArg (· + 1) (length_stop _))
  | stop => exact length_stop _
  | settle n result =>
    obtain ⟨f, hf⟩ := r.server.exists_change_settle n result
    exact (congrArg (·.answers.length) hf).trans (length_change ..)
  | receive n =>
    obtain ⟨f, hf⟩ := r.server.exists_change_receive n
    exact (congrArg (·.answers.length) hf).trans (length_change ..)
  | dropReceiver n => exact length_change ..

theorem length_answers_run (steps : List Step) :
    (run steps).server.answers.length = requests steps := by
  induction steps using List.reverseRecOn with
  | nil => rfl
  | append_singleton steps step ih =>
    rw [run_append_one, length_step, ih, requests, requests, List.countP_append,
      List.countP_singleton]

theorem outcomes_eq_nil (steps : List Step) (h : requests steps ≤ number) :
    (run steps).outcomes number = [] := by
  induction steps using List.reverseRecOn with
  | nil => rfl
  | append_singleton steps step ih =>
    rw [requests, List.countP_append] at h
    have hle : requests steps ≤ number := Nat.le_trans (Nat.le_add_right ..) h
    rw [run_append_one]
    cases step with
    | receive n =>
      rw [outcomes_receive, ih hle]
      by_cases hn : n = number
      · have hnone : (run steps).server.answers[n]? = none := by
          rw [List.getElem?_eq_none_iff, length_answers_run, hn]
          exact hle
        rw [receive_of_none hnone]
        exact if_pos hn
      · exact if_neg hn
    | _ => exact ih hle

theorem tracks_request (before : List Step) (q : BlocksQuery) :
    Tracks (run (before ++ [.request q])) (requests before) q.connection
      (q.ledger.response q.fromHeight q.nonce) none true := by
  rw [run_append_one]
  refine ⟨⟨.new, ?_, ?_, rfl⟩, fun _ => ?_⟩
  · refine (List.getElem?_append_right ?_).trans ?_
    · exact Nat.le_of_eq (by rw [length_stop, length_answers_run])
    · rw [length_stop, length_answers_run, Nat.sub_self]
      rfl
  · have hnil : ((run before).step (.request q)).outcomes (requests before) = [] :=
      outcomes_eq_nil before (Nat.le_refl _)
    rw [hnil]
    exact .new
  · exact congrArg some (length_answers_run before)

theorem tracks_run (before : List Step) (q : BlocksQuery) (after : List Step) :
    Tracks (run (before ++ .request q :: after)) (requests before) q.connection
      (q.ledger.response q.fromHeight q.nonce) (ending? (requests before) after)
      (after.all (·.spares (requests before))) := by
  induction after using List.reverseRecOn with
  | nil => exact tracks_request before q
  | append_singleton after step ih =>
    rw [← List.cons_append, ← List.append_assoc, run_append_one, ending?_append_one,
      List.all_append, List.all_cons, List.all_nil, Bool.and_true]
    exact ih.step step

theorem exists_of_current (steps : List Step) (h : (run steps).server.current = some number) :
    ∃ before q after, steps = before ++ .request q :: after ∧ requests before = number := by
  induction steps using List.reverseRecOn with
  | nil => cases h
  | append_singleton steps step ih =>
    rw [run_append_one] at h
    have hkept (hc : (run steps).server.current = some number) :
        ∃ before q after, steps ++ [step] = before ++ .request q :: after ∧
          requests before = number := by
      obtain ⟨before, q, after, rfl, hnumber⟩ := ih hc
      exact ⟨before, q, after ++ [step], by simp, hnumber⟩
    cases step with
    | request q =>
      have hnumber : (run steps).server.answers.length = number := Option.some_inj.1 h
      exact ⟨steps, q, [], rfl, (length_answers_run steps).symm.trans hnumber⟩
    | stop => cases (current_stop _).symm.trans h
    | settle n result =>
      obtain ⟨f, hf⟩ := (run steps).server.exists_change_settle n result
      exact hkept ((congrArg current hf).symm.trans h)
    | receive n =>
      obtain ⟨f, hf⟩ := (run steps).server.exists_change_receive n
      exact hkept ((congrArg current hf).symm.trans h)
    | dropReceiver n => exact hkept h

theorem Tracks.isPending (h : Tracks r number connection response ending heard)
    (hc : r.server.current = some number) : r.server.isPending = !ending.isSome := by
  obtain ⟨c, ha, hstands, -⟩ := h.channel
  have hdone := hstands.isDone_eq
  rw [Option.isSome_map] at hdone
  rw [BlocksServer.isPending, hc, Option.bind_some, ha, Option.any_some, hdone]

theorem isPending_run (steps : List Step) :
    (run steps).server.isPending ↔ ∃ before q after, steps = before ++ .request q :: after ∧
      ending? (requests before) after = none := by
  constructor
  · intro h
    cases hc : (run steps).server.current with
    | none =>
      rw [isPending, hc] at h
      cases h
    | some number =>
      obtain ⟨before, q, after, rfl, rfl⟩ := exists_of_current steps hc
      rw [(tracks_run before q after).isPending hc, Bool.not_eq_true', Option.isSome_eq_false_iff,
        Option.isNone_iff_eq_none] at h
      exact ⟨before, q, after, rfl, h⟩
  · rintro ⟨before, q, after, rfl, hend⟩
    have h := tracks_run before q after
    rw [h.isPending (h.current hend), hend]
    rfl

end

inductive Reports (connection : Connection) : SendResult → Outcome → Prop where
  | sent : Reports connection .sent .complete
  | failed (e : NetworkError) (text : String) :
    Reports connection (.failed e) (.fault text connection .sendFailure)
  | timedOut (text : String) : Reports connection .timedOut (.fault text connection .sendTimeout)

theorem reports_of (connection : Connection) (response : BlocksResponse) (result : SendResult) :
    Reports connection result (.of connection response result) := by
  cases result with
  | sent => exact .sent
  | failed e => exact .failed e _
  | timedOut => exact .timedOut _

/-- What became of request `number`, the steps after it being `after`: the answer to be sent, the
outcomes that were taken, and what its receiver finds now. -/
structure Served (r : Run) (number : Nat) (q : BlocksQuery) (answer : Answer) (after : List Step) :
    Prop where
  connection : answer.connection = q.connection
  nonce : answer.response.nonce = q.nonce
  blocks : answer.response.blocks =
    (q.ledger.blocks.filter (q.fromHeight ≤ ·.height)).map Block.raw
  once : (r.outcomes number).length ≤ 1
  own : ∀ outcome ∈ r.outcomes number, ∃ result,
    ending? number after = some (some result) ∧ Reports q.connection result outcome
  finds : .dropReceiver number ∉ after → (r.server.receive number).2 =
    .of ((ending? number after).map (·.map (.of q.connection answer.response))) (r.outcomes number)
  dropped : .dropReceiver number ∈ after → (r.server.receive number).2 = .dropped

/-- Every request is served, whatever comes after it; and one is pending as long as it has no end,
that is no result, no stop and no other request after it. -/
theorem served_of_run {steps : List Step} (hq : ∀ q, .request q ∈ steps → q.ledger.OfWrites) :
    ((run steps).server.isPending ↔ ∃ before q after, steps = before ++ .request q :: after ∧
      ending? (requests before) after = none) ∧
    ∀ before q after, steps = before ++ .request q :: after →
      Served (run steps) (requests before) q
        ((run before).server.request q.ledger q.fromHeight q.nonce q.connection).2 after := by
  refine ⟨isPending_run steps, ?_⟩
  rintro before q after rfl
  obtain ⟨c, ha, hstands, hheard⟩ := (tracks_run before q after).channel
  have hreceipt : ((run (before ++ .request q :: after)).server.receive (requests before)).2 =
      c.receive.2 := congrArg Prod.snd (receive_eq ha)
  refine ⟨rfl, rfl, ?_, hstands.length_taken_le, fun outcome ho => ?_, fun hd => ?_,
    fun hd => ?_⟩
  · exact congrArg (·.map Block.raw) ((hq q (by simp)).blocksFrom_eq q.fromHeight)
  · have hend := hstands.ending_of_mem_taken ho
    obtain ⟨e, he, hmap⟩ := Option.map_eq_some_iff.1 hend
    obtain ⟨result, rfl, rfl⟩ := Option.map_eq_some_iff.1 hmap
    exact ⟨result, he, reports_of ..⟩
  · rw [hreceipt]
    exact hstands.receipt_of_heard (hheard.trans (all_spares hd))
  · rw [hreceipt]
    exact OneShot.receipt_of_dropped (hheard.trans (all_spares_of_mem hd))

def sampleConnection : Connection := ⟨1, .v4 ⟨127, 0, 0, 1⟩ 2001⟩

def sampleQuery (fromHeight nonce : UInt32) : BlocksQuery where
  ledger := (Ledger.new Sample.genesis).writeAll [.start Sample.first, .start Sample.second]
  fromHeight := fromHeight
  nonce := nonce
  connection := sampleConnection

def sampleSteps : List Step :=
  [.request (sampleQuery 10 1), .request (sampleQuery 11 2), .settle 0 .sent,
    .settle 1 (.failed (.closed 1)), .settle 1 .timedOut, .receive 1, .receive 1]

theorem served_sampleSteps :
    (∀ q, .request q ∈ sampleSteps → q.ledger.OfWrites) ∧
      (run sampleSteps).server.isPending = false ∧
      ((run sampleSteps).server.receive 0).2 = .closed ∧
      ((sampleQuery 11 2).ledger.response 11 2).blocks = [Sample.second.opened.raw] ∧
      (run sampleSteps).outcomes 1 = [.of sampleConnection
        ((sampleQuery 11 2).ledger.response 11 2) (.failed (.closed 1))] := by
  have hq : ∀ q, .request q ∈ sampleSteps → q.ledger.OfWrites := by
    intro q hmem
    simp only [sampleSteps, List.mem_cons, Step.request.injEq, reduceCtorEq, List.not_mem_nil,
      or_false] at hmem
    obtain rfl | rfl := hmem <;> exact ⟨_, _, rfl⟩
  obtain ⟨-, hserved⟩ := served_of_run hq
  have hfirst := hserved [] (sampleQuery 10 1) _ rfl
  have hsecond := hserved [.request (sampleQuery 10 1)] (sampleQuery 11 2) _ rfl
  refine ⟨hq, rfl, hfirst.finds (by simp), hsecond.blocks.trans (by decide +kernel), ?_⟩
  rfl

end BlocksServer
end DaoLedger
