import DaoLedger.Command.Arguments
import DaoLedger.Text.Lines
import DaoLedger.Text.Plain
/-!
The help texts of the program, with the sequences by which a terminal shows names in bold.
-/
namespace DaoLedger.HelpTopic

open Arguments (ValueOption metricsVariable)

def bold (s : String) : String := "\x1b[1m" ++ s ++ "\x1b[0m"

def heading (s : String) : String := "\x1b[1m\x1b[4m" ++ s ++ "\x1b[0m"

def usage (rest : String) : String := heading "Usage:" ++ " " ++ bold "bsq-daemon" ++ rest

/-- What the help says of a variable: its name, and its value if it has one. Further lines of the
value stand below the first. -/
def variableNote (env : Environment) (name : String) : String :=
  let value := (env.lookup name).getD ""
  Text.hanging (String.ofList (List.replicate 33 ' ')) (" [env: " ++ name ++ "=" ++ value ++ "]")

def helpLine (gap : String) : String :=
  "  " ++ bold "-h" ++ ", " ++ bold "--help" ++ gap ++ "Print help"

def optionLines (env : Environment) : List String :=
  let note (o : ValueOption) := variableNote env o.environmentName
  let line (o : ValueOption) (rest : String) := "      " ++ bold o.name ++ rest ++ note o
  [heading "Options:",
    line .config (" <CONFIG>          Path to a TOML configuration file. "
      ++ "CLI flags and env vars override it"),
    line .logLevel (" <LOG_LEVEL>    Log level: "
      ++ "\"trace\", \"debug\", \"info\", \"warn\", \"error\""),
    line .logFormat " <LOG_FORMAT>  Log format: \"human\" or \"json\"",
    "      " ++ bold "--metrics" ++ "                  Enable the Prometheus metrics endpoint"
      ++ variableNote env metricsVariable,
    helpLine "                     "]

def commandLines : List String :=
  [heading "Commands:",
    "  " ++ bold "full" ++ "    Parse the chain feed and serve lite nodes",
    "  " ++ bold "lite" ++ "    Sync parsed blocks from the configured peers",
    "  " ++ bold "replay"
      ++ "  Parse a JSON file of raw blocks offline and print the resulting state",
    "  " ++ bold "help" ++ "    Print this message or the help of the given subcommand(s)"]

def lines (env : Environment) : HelpTopic → List String
  | .program =>
    ["BSQ DAO node daemon", "", usage " [OPTIONS] <COMMAND>", ""]
      ++ commandLines ++ [""] ++ optionLines env
  | .full =>
    ["Parse the chain feed and serve lite nodes", "", usage (bold " full" ++ " [OPTIONS]"), "",
      heading "Options:",
      "      " ++ bold "--blocks" ++ " <BLOCKS>  JSON file of raw blocks fed to the parser on "
        ++ "startup. Defaults to `blocks.json` in the data dir if present",
      helpLine "             "]
  | .lite =>
    ["Sync parsed blocks from the configured peers", "", usage (bold " lite"), "",
      heading "Options:", helpLine "  "]
  | .replay =>
    ["Parse a JSON file of raw blocks offline and print the resulting state", "",
      usage (bold " replay" ++ " <FILE>"), "", heading "Arguments:", "  <FILE>  ", "",
      heading "Options:", helpLine "  "]
  | .help =>
    ["Print this message or the help of the given subcommand(s)", "",
      usage (bold " help" ++ " [COMMAND]..."), "", heading "Arguments:",
      "  [COMMAND]...  Print help for the subcommand(s)"]

def text (env : Environment) (topic : HelpTopic) : String :=
  Text.plain (Text.unlines (topic.lines env))

end DaoLedger.HelpTopic
