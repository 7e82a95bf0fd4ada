import DaoLedger.Sync.Connection
/-!
A network that records what is sent over it, for rehearsals without peers. It delivers every
message, refuses every message, or never finishes sending.
-/
namespace DaoLedger

inductive Behaviour where
  | succeed | fail | hang
deriving DecidableEq, Inhabited, Repr

structure Recorder where
  behaviour : Behaviour
  sent : List (Connection × Message)
  closed : List (Connection × CloseReason)

namespace Recorder

def new : Recorder := ⟨.succeed, [], []⟩

def connection (id : UInt64) : Connection :=
  ⟨id, .v4 ⟨127, 0, 0, 1⟩ (20000 + (id % 10000).toUInt16)⟩

/-- Sends a message; without a result the sending goes on for ever. -/
def send (r : Recorder) (connection : Connection) (message : Message) :
    Recorder × Option SendResult :=
  match r.behaviour with
  | .succeed => ({ r with sent := (connection, message) :: r.sent }, some .sent)
  | .fail =>
    (r, some (.failed (.sendFailed ("null network refused " ++ message.name ++ " to "
      ++ toString connection))))
  | .hang => (r, none)

def close (r : Recorder) (connection : Connection) (reason : CloseReason) : Recorder :=
  { r with closed := (connection, reason) :: r.closed }

def cleared (r : Recorder) : Recorder := { r with sent := [], closed := [] }

end Recorder

end DaoLedger
