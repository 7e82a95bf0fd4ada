import DaoLedger.Classify.Block
import DaoLedger.Node.Config
import DaoLedger.Sync.Connection
/-!
Why an operation of a node fails. The ledger has no errors of its own here, since blocks come to it
through the parser; and metrics, each registered once under its own name, have none.
-/
namespace DaoLedger

inductive NodeError where
  | parse (error : ParseError)
  | network (error : NetworkError)
  | config (error : ConfigError)
  | executorStopped
  /-- The task that applied a block broke off. -/
  | parseTask (cause : String)
  | replay
  | file (error : FileError)
deriving DecidableEq, Inhabited, Repr

def NodeError.message : NodeError → String
  | .parse error => "parse error: " ++ error.message
  | .network error => "network error: " ++ error.message
  | .config error => error.message
  | .executorStopped => "parse executor stopped"
  | .parseTask cause => "parse task failed: " ++ cause
  | .replay => "replay file error: not a list of raw blocks"
  | .file error => "IO error: " ++ error.message

def NodeError.causes : NodeError → List String
  | .parse error => [error.message]
  | .network error => error.message :: error.causes
  | .file error => [error.message]
  | .config _ | .executorStopped | .parseTask _ | .replay => []

end DaoLedger
