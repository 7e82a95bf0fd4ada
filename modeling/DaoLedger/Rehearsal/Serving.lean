import DaoLedger.Rehearsal.Recorder
import DaoLedger.Sync.Call
import DaoLedger.Sync.Serving
/-!
A server of blocks on a recording network, under a clock that moves only when told to. A send
that goes on for ever is given up when its time has run out.
-/
namespace DaoLedger.Rehearsal

structure Serving where
  server : BlocksServer
  ledger : Ledger
  net : Recorder
  now : Nat
  timeout : Nat
  /-- The requests whose sending goes on, each with the time at which it is given up; the oldest
  stands first. -/
  timers : List (Nat × Nat)

namespace Serving

def new (ledger : Ledger) (timeout : Nat) : Serving := ⟨.new, ledger, .new, 0, timeout, []⟩

def request (s : Serving) (fromHeight nonce : UInt32) (c : Connection) : Serving × Bool :=
  let number := s.server.answers.length
  let (server, answer) := s.server.request s.ledger fromHeight nonce c
  let (net, result) := s.net.send c (.blocks answer.response)
  let s' := { s with server, net }
  (match result with
    | some result => { s' with server := server.settle number result }
    | none =>
      if s.timeout = 0 then { s' with server := server.settle number .timedOut }
      else { s' with timers := s.timers ++ [(number, s.now + s.timeout)] },
    server.isPending)

def advanceTo (s : Serving) (time : Nat) : Serving :=
  let (due, later) := s.timers.partition fun t => t.2 ≤ time
  { s with
    server := due.foldl (fun server t => server.settle t.1 .timedOut) s.server
    timers := later
    now := max s.now time }

def await (s : Serving) (number : Nat) : Serving × Receipt Outcome :=
  let s := match s.server.receive number, s.timers.lookup number with
    | (_, .empty), some time => s.advanceTo time
    | _, _ => s
  let (server, receipt) := s.server.receive number
  ({ s with server := server.dropReceiver number }, receipt)

def dropReceiver (s : Serving) (number : Nat) : Serving × Bool :=
  ({ s with server := s.server.dropReceiver number },
    (s.server.answers[number]?).any (·.outcome.heard))

def stop (s : Serving) : Serving := { s with server := s.server.stop }

end Serving

end DaoLedger.Rehearsal
