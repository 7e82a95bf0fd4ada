import DaoLedger.Command.Run
/-!
The program. It carries no transport: a node that would talk to peers ends here.
-/
namespace DaoLedger.Terminal

def readTextFile (path : String) : IO (Except FileError String) := do
  try
    return .ok (← IO.FS.readFile path)
  catch
    | .noFileOrDirectory .. => return .error .missing
    | .inappropriateType _ 20 _ => return .error .notDirectory
    | .inappropriateType .. => return .error .isDirectory
    | .permissionDenied .. => return .error .denied
    | .invalidArgument _ 36 _ => return .error .tooLong
    | _ => return .error .notText

def readEnvironment : IO Environment := do
  let names := Arguments.metricsVariable :: Arguments.ValueOption.all.map (·.environmentName)
  names.filterMapM fun name => return (← IO.getEnv name).map fun value => (name, value)

def finish (ending : Ending) : IO UInt32 := do
  IO.print ending.out
  IO.eprint ending.err
  return ending.status.toUInt32

def host : Command.Host IO := ⟨readTextFile, fun _ => return .ok ()⟩

def run (args : List String) : IO UInt32 := do
  match ← Command.run host (← readEnvironment) args with
  | .ended ending => finish ending
  | .full c _ => finish (.failure [] (s!"cannot listen on {c.listenAddress}") ["no transport"])
  | .lite _ => finish (.failure [] "cannot connect to peers" ["no transport"])
  | .never =>
    repeat IO.sleep 1000
    return 0

end DaoLedger.Terminal

def main (args : List String) : IO UInt32 := DaoLedger.Terminal.run args
