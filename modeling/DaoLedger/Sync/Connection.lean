import DaoLedger.Sync.Address
import DaoLedger.Text.Duration
import DaoLedger.Wire.Message
/-!
Connections to peers, what may go wrong on them, and what they report.
-/
namespace DaoLedger

structure Connection where
  id : UInt64
  address : Address
deriving DecidableEq, Inhabited, Repr

def Connection.label (id : UInt64) : String := s!"#{id}"

instance : ToString Connection where
  toString c := Connection.label c.id ++ " (" ++ toString c.address ++ ")"

inductive CloseReason where
  | sendFailure | sendTimeout | ruleViolation | disconnected | shutdown
deriving DecidableEq, Inhabited, Repr

namespace CloseReason

def all : List CloseReason := [.sendFailure, .sendTimeout, .ruleViolation, .disconnected, .shutdown]

def name : CloseReason → String
  | .sendFailure => "SEND_MSG_FAILURE"
  | .sendTimeout => "SEND_MSG_TIMEOUT"
  | .ruleViolation => "RULE_VIOLATION"
  | .disconnected => "PEER_DISCONNECTED"
  | .shutdown => "SHUTDOWN"

end CloseReason

inductive NetworkError where
  | closed (connectionId : UInt64)
  | sendFailed (reason : String)
  | timeout (milliseconds : Nat)
  | channelClosed
  | foreignAddress
deriving DecidableEq, Inhabited, Repr

def NetworkError.message : NetworkError → String
  | .closed id => "connection " ++ Connection.label id ++ " is closed"
  | .sendFailed reason => "send failed: " ++ reason
  | .timeout milliseconds => "request timed out after " ++ Text.duration milliseconds
  | .channelClosed => "channel closed"
  | .foreignAddress => "IO error: Cannot assign requested address (os error 99)"

def NetworkError.causes : NetworkError → List String
  | .foreignAddress => ["Cannot assign requested address (os error 99)"]
  | _ => []

inductive SendResult where
  | sent
  | failed (error : NetworkError)
  | timedOut
deriving DecidableEq, Inhabited, Repr

inductive PeerEvent where
  | connected (connection : Connection)
  | received (connection : Connection) (message : Message)
  | disconnected (connection : Connection)
deriving DecidableEq, Inhabited, Repr

end DaoLedger
