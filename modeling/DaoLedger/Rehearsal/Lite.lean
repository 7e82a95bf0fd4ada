import DaoLedger.Node.LiteNode
import DaoLedger.Rehearsal.Calling
/-!
A lite node on a recording network, under a clock that moves only when somebody waits. What comes
to the loop of the node has a millisecond to be worked off.
-/
namespace DaoLedger.Rehearsal

/-- The worker of a running node: the work that waits, and the call that it is in with the time
at which it gives up. -/
structure Worker where
  work : List Work
  call : Option (Call × Nat)

structure Lite where
  node : LiteNode
  net : Recorder
  now : Nat
  timeout : Nat
  draw : UInt32
  queue : List Work
  worker : Option Worker

namespace Lite

/-- Draws lie so far apart that no number near one of them is another. -/
def drawStep : UInt32 := 0x9e3779b9

def new (genesis : Genesis) (timeout : Nat) : Lite :=
  ⟨.new (.new genesis), .new, 0, timeout, drawStep, [], none⟩

def call (s : Lite) (c : Connection) (replies : List Reply) :
    Lite × List Bool × (Call ⊕ Result NodeError Nat) :=
  match s.node.call? c s.draw with
  | none =>
    (s, [], .inr (if s.node.executor.stuck then .never else .error (.network .channelClosed)))
  | some (node, call) =>
    let x := exchange call s.timeout node.pending s.net replies
    let node := { node with pending := x.pending }
    let s := { s with net := x.net, draw := s.draw + drawStep }
    match x.result with
    | none => ({ s with node }, x.taken, .inl call)
    | some result =>
      let (node, outcome) := node.finish call result
      ({ s with node }, x.taken, .inr outcome)

/-! ### The worker -/

def callFor (s : Lite) (c : Connection) : Lite × Option Call :=
  match s.call c [] with
  | (s, _, .inl call) => (s, some call)
  | (s, _, .inr _) => (s, none)

def start (s : Lite) : Work → Lite × Option Call
  | .sync c => s.callFor c
  | .newBlock c raw =>
    match s.node.takeBlock raw with
    | (node, some _) => ({ s with node }, none)
    | (node, none) => { s with node }.callFor c

/-- Works off items in order, up to one that has to wait or that has no end. -/
def work (s : Lite) : List Work → Lite
  | [] => { s with worker := some ⟨[], none⟩ }
  | w :: ws =>
    if s.node.executor.stuck then { s with worker := some ⟨w :: ws, none⟩ }
    else
      match s.start w with
      | (s, none) => s.work ws
      | (s, some call) => { s with worker := some ⟨ws, some (call, s.now + s.timeout)⟩ }

def workerFinish (s : Lite) (ws : List Work) (call : Call)
    (result : Except NetworkError BlocksResponse) : Lite :=
  { s with node := (s.node.finish call result).1 }.work ws

def resume (s : Lite) : Lite :=
  match s.worker with
  | none => s
  | some ⟨ws, none⟩ => s.work ws
  | some ⟨ws, some (call, _)⟩ =>
    match call.answer? s.node.pending with
    | none => s
    | some result => s.workerFinish ws call result

def advance (s : Lite) (limit : Nat) : Nat → Lite
  | 0 => { s with now := max s.now limit }
  | n + 1 =>
    match s.worker with
    | some ⟨ws, some (call, time)⟩ =>
      if time ≤ limit then
        ({ s with now := time }.workerFinish ws call (.error (.timeout s.timeout))).advance limit n
      else { s with now := max s.now limit }
    | _ => { s with now := max s.now limit }

def advanceTo (s : Lite) (limit : Nat) : Lite :=
  s.advance limit ((s.worker.map (·.work.length)).getD 0 + 1)

/-! ### Calls from outside the loop -/

def sync (s : Lite) (c : Connection) (replies : List Reply) :
    Lite × List Bool × Result NodeError Nat :=
  match s.call c replies with
  | (s, taken, .inr outcome) => (s, taken, outcome)
  | (s, taken, .inl call) =>
    let s := s.advanceTo (s.now + s.timeout)
    let (node, outcome) := s.node.finish call (.error (.timeout s.timeout))
    ({ s with node }, taken, outcome)

def newBlock (s : Lite) (c : Connection) (raw : RawBlock) (replies : List Reply) :
    Lite × List Bool × Result NodeError Unit :=
  match s.node.takeBlock raw with
  | (node, some outcome) => ({ s with node }, [], outcome)
  | (node, none) =>
    let (s, taken, outcome) := { s with node }.sync c replies
    (s, taken, outcome.map fun _ => ())

def route (s : Lite) (e : PeerEvent) : Lite :=
  let (node, work) := s.node.route e
  { s with node, queue := s.queue ++ work.toList }

def process? (s : Lite) (replies : List Reply) : Option (Lite × List Bool) :=
  match s.queue with
  | [] => none
  | .sync c :: queue =>
    let (s, taken, _) := { s with queue }.sync c replies
    some (s, taken)
  | .newBlock c raw :: queue =>
    let (s, taken, _) := { s with queue }.newBlock c raw replies
    some (s, taken)

/-! ### The loop -/

def run (s : Lite) : Lite := { s with worker := some ⟨[], none⟩ }

def arrive (s : Lite) (e : PeerEvent) : Lite :=
  match s.worker with
  | none => s
  | some w =>
    let (node, work) := s.node.route e
    let s := { s with node, worker := some { w with work := w.work ++ work.toList } }.resume
    s.advanceTo (s.now + 1)

def requested? (s : Lite) : Option UInt32 :=
  s.net.sent.findSome? fun m => match m.2 with
    | .getBlocks _ nonce => some nonce
    | _ => none

def arriveAnswered (s : Lite) (e : PeerEvent) (c : Connection) (blocks : Option (List RawBlock)) :
    Lite :=
  let s := { s with net := s.net.cleared }.arrive e
  match s.requested?, blocks with
  | some nonce, some blocks => s.arrive (.received c (.blocks ⟨blocks, nonce⟩))
  | _, _ => s

def stop? (s : Lite) : Option Lite :=
  s.worker.map fun w =>
    let node := match w.call with
      | none => s.node
      | some (call, _) => s.node.abandon call
    { s with worker := none, node := { node with executor := node.executor.stop } }

end Lite

end DaoLedger.Rehearsal
