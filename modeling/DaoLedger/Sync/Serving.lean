import DaoLedger.Ledger.Query
import DaoLedger.Sync.Connection
import DaoLedger.Sync.OneShot
/-!
Answering requests for blocks. A server answers one request at a time: a new request stops the
one before. Of the ends that the sending of a response may have, the first settles the request;
what comes later, or after a stop, changes nothing.
-/
namespace DaoLedger

def Ledger.response (l : Ledger) (fromHeight nonce : UInt32) : BlocksResponse :=
  ⟨(l.blocksFrom fromHeight).map Block.raw, nonce⟩

inductive Outcome where
  | complete
  | fault (text : String) (connection : Connection) (reason : CloseReason)
deriving DecidableEq, Inhabited, Repr

def Outcome.of (connection : Connection) (response : BlocksResponse) : SendResult → Outcome
  | .sent => .complete
  | .failed e =>
    .fault ("Sending getBlocksResponse to " ++ toString connection
      ++ " failed. That is expected if the peer is offline. getBlocksResponse="
      ++ response.summary ++ ". Error: " ++ e.message) connection .sendFailure
  | .timedOut =>
    .fault ("A timeout occurred for getBlocksResponse:" ++ response.summary ++ " on connection:"
      ++ toString connection) connection .sendTimeout

structure Answer where
  connection : Connection
  response : BlocksResponse
  outcome : OneShot Outcome
deriving DecidableEq, Inhabited, Repr

structure BlocksServer where
  answers : List Answer
  /-- The newest request, unless it was stopped. -/
  current : Option Nat

namespace BlocksServer

def new : BlocksServer := ⟨[], none⟩

def change (s : BlocksServer) (number : Nat) (f : OneShot Outcome → OneShot Outcome) :
    BlocksServer :=
  { s with answers := s.answers.modify number fun a => { a with outcome := f a.outcome } }

def stop (s : BlocksServer) : BlocksServer :=
  match s.current with
  | none => s
  | some number => { s.change number fun c => c.cancel.1 with current := none }

def request (s : BlocksServer) (l : Ledger) (fromHeight nonce : UInt32)
    (connection : Connection) : BlocksServer × Answer :=
  let answer : Answer := ⟨connection, l.response fromHeight nonce, .new⟩
  (⟨s.stop.answers ++ [answer], some s.answers.length⟩, answer)

def settle (s : BlocksServer) (number : Nat) (result : SendResult) : BlocksServer :=
  match s.answers[number]? with
  | none => s
  | some a => s.change number fun c => (c.complete (.of a.connection a.response result)).1

/-- Whether the newest request has neither been stopped nor settled. -/
def isPending (s : BlocksServer) : Bool :=
  (s.current.bind fun number => s.answers[number]?).any fun a => !a.outcome.isDone

def receive (s : BlocksServer) (number : Nat) : BlocksServer × Receipt Outcome :=
  match s.answers[number]? with
  | none => (s, .dropped)
  | some a => (s.change number fun c => c.receive.1, a.outcome.receive.2)

def dropReceiver (s : BlocksServer) (number : Nat) : BlocksServer :=
  s.change number OneShot.dropReceiver

end BlocksServer

end DaoLedger
