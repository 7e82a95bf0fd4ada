import DaoLedger.Node.FullNode
import DaoLedger.Rehearsal.Recorder
import DaoLedger.Sync.Call
/-!
A full node on a recording network, under a clock that moves only when somebody waits. What comes
to the loop of the node has a millisecond to be worked off.
-/
namespace DaoLedger.Rehearsal

inductive Intake where
  | event (e : PeerEvent)
  | block (raw : RawBlock)
deriving DecidableEq, Inhabited, Repr

def Intake.isEvent : Intake → Bool
  | .event _ => true
  | .block _ => false

/-- The loop of a running node. While a block is being announced it takes nothing in. -/
structure FeedLoop where
  feedOpen : Bool
  inbox : List Intake
  announcing : List Nat

structure Full where
  node : FullNode
  net : Recorder
  now : Nat
  timeout : Nat
  timers : List (Nat × Nat)
  loop : Option FeedLoop

namespace Full

def new (genesis : Genesis) (timeout : Nat) : Full :=
  ⟨.new (.new genesis), .new, 0, timeout, [], none⟩

/-! ### Sending -/

def report (s : Full) (number : Nat) (result : SendResult) : Full :=
  let (node, closing) := s.node.settle number result
  match closing with
  | none => { s with node }
  | some (c, reason) => { s with node, net := s.net.close c reason }

def send (s : Full) (delivery : Nat × Delivery) : Full :=
  let (number, d) := delivery
  let allowed := match d with
    | .newBlock .. => s.timeout
    | .answer .. => answerTimeout
  match s.net.send d.connection d.message with
  | (net, some result) => { s with net }.report number result
  | (net, none) =>
    if allowed = 0 then { s with net }.report number .timedOut
    else { s with net, timers := s.timers ++ [(number, s.now + allowed)] }

/-! ### The loop -/

def take (s : Full) (l : FeedLoop) : Intake → Full
  | .event e =>
    let (node, sends) := s.node.handle e
    sends.foldl send { s with node, loop := some { l with announcing := [] } }
  | .block raw =>
    let (node, _, sends) := s.node.applyBlock raw
    sends.foldl send { s with node, loop := some { l with announcing := sends.map (·.1) } }

/-- Takes in what has arrived, in order, up to a block whose announcement goes on or that is being
opened without end. -/
def work (s : Full) : List Intake → Full
  | [] => { s with loop := s.loop.map fun l => { l with inbox := [] } }
  | i :: is =>
    match s.loop with
    | none => s
    | some l =>
      if s.node.executor.stuck || l.announcing.any (· ∈ s.node.deliveries) then
        { s with loop := some { l with inbox := i :: is } }
      else (s.take l i).work is

/-! ### Time -/

def nextTimer? (s : Full) (limit : Nat) : Option (Nat × Nat) :=
  (s.timers.filter (·.2 ≤ limit)).foldl (fun best t => match best with
    | none => some t
    | some b => some (if t.2 < b.2 then t else b)) none

def advance (s : Full) (limit : Nat) : Nat → Full
  | 0 => { s with now := max s.now limit }
  | n + 1 =>
    match s.nextTimer? limit with
    | none => { s with now := max s.now limit }
    | some (number, time) =>
      let s := { s with now := max s.now time, timers := s.timers.filter (·.1 ≠ number) }
      let s := s.report number .timedOut
      (s.work ((s.loop.map (·.inbox)).getD [])).advance limit n

/-- Every send is given up at most once, and what waits in the inbox sends to each peer at most
once. -/
def advanceTo (s : Full) (limit : Nat) : Full :=
  let waiting := ((s.loop.map (·.inbox)).getD []).length
  s.advance limit (s.timers.length + waiting * (s.node.peers.size + waiting + 2))

def arrive (s : Full) (i : Intake) : Full :=
  match s.loop with
  | none => s
  | some l =>
    if i.isEvent || l.feedOpen then
      let s := s.work (l.inbox ++ [i])
      s.advanceTo (s.now + 1)
    else s

def await (s : Full) (numbers : List Nat) : Full :=
  match ((s.timers.filter (·.1 ∈ numbers)).map (·.2)).max? with
  | none => s
  | some time => s.advanceTo time

/-! ### Calls from outside the loop -/

def apply (s : Full) (raw : RawBlock) : Full × Result NodeError Block :=
  let (node, result, sends) := s.node.applyBlock raw
  ((sends.foldl send { s with node }).await (sends.map (·.1)), result)

def applyMany (s : Full) (applied : Nat) : List RawBlock → Full × Result NodeError Nat
  | [] => (s, .ok applied)
  | raw :: raws =>
    match s.apply raw with
    | (s, .never) => (s, .never)
    | (s, .error e) => (s, .error e)
    | (s, .ok _) => s.applyMany (applied + 1) raws

def serve (s : Full) (fromHeight nonce : UInt32) (c : Connection) : Full :=
  let (node, sends) := s.node.serve fromHeight nonce c
  (sends.foldl send { s with node }).await (sends.map (·.1))

def handle (s : Full) (e : PeerEvent) : Full :=
  let (node, sends) := s.node.handle e
  sends.foldl send { s with node }

/-! ### Starting and ending the loop -/

def run (s : Full) : Full := { s with loop := some ⟨true, [], []⟩ }

def closeFeed (s : Full) : Full :=
  { s with loop := s.loop.map fun l => { l with feedOpen := false } }

/-- Ends the loop, which first finishes its announcement and takes in what is left to it of its
inbox, and with it the executor. None if there is no loop, or none that gets to its end. -/
def stopAfter? (left : List Intake → List Intake) (s : Full) : Option Full :=
  if s.node.executor.stuck then none
  else
    s.loop.map fun l =>
      let s := { s with loop := some { l with inbox := left l.inbox } }.await l.announcing
      { s with loop := none, node.executor := s.node.executor.stop }

def stop? : Full → Option Full := stopAfter? fun _ => []

/-- Ends the loop by ending its events, of which the last ones are still taken in. -/
def closeEvents? : Full → Option Full := stopAfter? (·.filter Intake.isEvent)

end Full

end DaoLedger.Rehearsal
