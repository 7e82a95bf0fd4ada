import DaoLedger.Rehearsal.Recorder
import DaoLedger.Sync.Call
/-!
Calls on a recording network, with replies made up beforehand.
-/
namespace DaoLedger.Rehearsal

/-- A reply to a request: blocks under a nonce that lies so far after that of the request. -/
structure Reply where
  offset : UInt32
  blocks : List RawBlock
deriving DecidableEq, Inhabited, Repr

def handOver (nonce : UInt32) (p : Pending) : List Reply → Pending × List Bool
  | [] => (p, [])
  | r :: rs =>
    let (p, taken) := p.resolve ⟨r.blocks, nonce + r.offset⟩
    let (p, more) := handOver nonce p rs
    (p, taken :: more)

structure Exchange where
  pending : Pending
  net : Recorder
  taken : List Bool
  result : Option (Except NetworkError BlocksResponse)

/-- Sends the request of a call and hands over the replies as soon as it is sent. A call that may
take no time at all gives up before. -/
def exchange (call : Call) (timeout : Nat) (p : Pending) (net : Recorder) (replies : List Reply) :
    Exchange :=
  let gaveUp := if timeout = 0 then some (.error (.timeout 0)) else none
  let p := if timeout = 0 then call.leave p else p
  match net.send call.connection call.request with
  | (net, some .sent) =>
    let (p, taken) := handOver call.nonce p replies
    ⟨p, net, taken, gaveUp.or (call.answer? p)⟩
  | (net, some (.failed e)) => ⟨p, net, [], some (.error e)⟩
  | (net, _) => ⟨p, net, [], gaveUp⟩

structure Calling where
  pending : Pending
  net : Recorder
  timeout : Nat

namespace Calling

def new (timeout : Nat) : Calling := ⟨.empty, .new, timeout⟩

structure Report where
  result : Except NetworkError BlocksResponse
  taken : List Bool
  waited : Nat

def call (s : Calling) (c : Connection) (fromHeight : UInt32) (replies : List Reply) :
    Calling × Report :=
  match Call.start? s.pending c fromHeight 0 with
  | none => (s, ⟨.error .channelClosed, [], 0⟩)
  | some (pending, call) =>
    let x := exchange call s.timeout pending s.net replies
    let s := { s with pending := call.leave x.pending, net := x.net }
    match x.result with
    | some result => (s, ⟨result, x.taken, 0⟩)
    | none => (s, ⟨.error (.timeout s.timeout), x.taken, s.timeout⟩)

def abandon (s : Calling) (c : Connection) (fromHeight : UInt32) : Calling × Nat :=
  match Call.start? s.pending c fromHeight 0 with
  | none => (s, s.pending.size)
  | some (pending, call) =>
    let x := exchange call s.timeout pending s.net []
    let left := call.leave x.pending
    ({ s with pending := left, net := x.net },
      if x.result.isSome then left.size else x.pending.size)

end Calling

end DaoLedger.Rehearsal
