import DaoLedger.Chain.RawJson
import DaoLedger.Json.Printer
import DaoLedger.Json.Reader
import DaoLedger.Node.Error
/-!
Chain feeds in files: a JSON list of raw blocks.
-/
namespace DaoLedger.Replay

def read (s : String) : Except NodeError (List RawBlock) :=
  match (Json.read? s).bind ofJson? with
  | none => .error .replay
  | some raws => .ok raws

def write (raws : List RawBlock) : String := (toJson raws).pretty

end DaoLedger.Replay
