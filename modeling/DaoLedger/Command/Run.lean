import DaoLedger.Command.Help
import DaoLedger.Governance.BlindVote
import DaoLedger.Node.Executor
import DaoLedger.Node.LogFilter
import DaoLedger.Node.Replay
import DaoLedger.Text.Amount
import DaoLedger.Text.Lines
/-!
What the program does for its arguments, up to the point where a node would have to talk to
others. The files and addresses of the host are reached through functions that are handed in.
-/
namespace DaoLedger

structure Ending where
  status : UInt8
  out : String
  err : String
deriving DecidableEq, Inhabited, Repr

inductive Launch where
  | ended (ending : Ending)
  | full (config : NodeConfig) (feed : List RawBlock)
  | lite (config : NodeConfig)
  /-- A replay without end. -/
  | never
deriving DecidableEq, Inhabited, Repr

namespace Ending

def success (out : List String) : Ending := ⟨0, Text.unlines out, ""⟩

def causeLines : List String → List String
  | [] => []
  | [cause] => ["", "Caused by:", "    " ++ Text.hanging "    " cause]
  | causes =>
    ["", "Caused by:"] ++ causes.zipIdx.map fun (cause, i) =>
      "    " ++ toString i ++ ": " ++ Text.hanging "       " cause

def failure (out : List String) (text : String) (causes : List String) : Ending :=
  ⟨1, Text.unlines out, Text.unlines (("Error: " ++ text) :: causeLines causes)⟩

def ofError (e : NodeError) : Ending := failure [] e.message e.causes

def within (context : String) (e : NodeError) : Ending :=
  failure [] context (e.message :: e.causes)

end Ending

namespace Command

/-! ### Replay -/

def issuedLine (l : Ledger) : String := "issued:           " ++ Text.bsq l.totalIssued

def summary (l : Ledger) (applied total : Nat) : List String :=
  [s!"blocks applied:   {applied}/{total}", s!"chain height:     {l.chainHeight}",
    "bsq txs:          " ++ toString l.storedTxs.length,
    "burnt fees:       " ++ Text.bsq l.totalBurnt, issuedLine l]

def meritLine (stake issuances : Nat) : String :=
  "issuance merit:   " ++ Text.bsq stake ++ " (" ++ toString issuances ++ " issuances)"

def cycleLine (c : Cycle) : String :=
  "current cycle:    " ++ toString c.firstBlock ++ "..=" ++ toString c.lastBlock ++ " ("
    ++ Text.blockSpan c.duration ++ ")"

def report (l : Ledger) (blocksPerYear : UInt32) (applied total : Nat) : Ending :=
  let merits := l.issuedMerits
  match l.meritStake merits l.chainHeight blocksPerYear with
  | .error e =>
    .failure (summary l applied total) "weighing issuance merit"
      [(GovernanceError.invalidArgument e).message]
  | .ok stake =>
    .success (summary l applied total ++ [meritLine stake merits.length]
      ++ (l.cycles.head?.map cycleLine).toList)

def replayed (c : NodeConfig) (file : String) (raws : List RawBlock) : Launch :=
  match (Executor.new c.genesis).parseBlocks raws with
  | (_, .never) => .never
  | (_, .error e) => .ended (.within ("replaying " ++ file) e)
  | (x, .ok applied) => .ended (report x.ledger c.blocksPerYear applied raws.length)

/-! ### Files -/

structure Host (m : Type → Type) where
  fetch : String → m (Except FileError String)
  listen : Address → m (Except NetworkError Unit)

variable {m : Type → Type} [Monad m] (host : Host m)

def loadConfig : Option String → m (Except ConfigError NodeConfig)
  | none => return .ok .default
  | some path => do
    match ← host.fetch path with
    | .error e => return .error (.file path e)
    | .ok text => return NodeConfig.ofToml text

def loadBlocks (path : String) : m (Except NodeError (List RawBlock)) := do
  match ← host.fetch path with
  | .error e => return .error (.file e)
  | .ok text => return Replay.read text

def standardFeed (c : NodeConfig) : String :=
  if c.dataDirectory.isEmpty then "blocks.json"
  else if c.dataDirectory.toList.getLast? = some '/' then c.dataDirectory ++ "blocks.json"
  else c.dataDirectory ++ "/blocks.json"

/-- The blocks of the feed; the standard feed may be missing. -/
def loadFeed (c : NodeConfig) : Option String → m (Except NodeError (List RawBlock))
  | some path => loadBlocks host path
  | none => do
    match ← loadBlocks host (standardFeed c) with
    | .error (.file .missing) | .error (.file .notDirectory) | .error (.file .tooLong) =>
      return .ok []
    | feed => return feed

/-! ### Running -/

def complain (c : NodeConfig) : Launch → Launch
  | .ended e => .ended { e with err := Text.unlines (LogFilter.complaints c.logLevel) ++ e.err }
  | started => started

def override (c : NodeConfig) (o : Options) : NodeConfig :=
  { c with
    logLevel := o.logLevel.getD c.logLevel
    logFormat := o.logFormat.getD c.logFormat
    metricsEnabled := c.metricsEnabled || o.metrics }

def launch (c : NodeConfig) : Command → m Launch
  | .replay file => do
    match ← loadBlocks host file with
    | .error e => return .ended (.ofError e)
    | .ok raws => return replayed c file raws
  | .full blocks => do
    match ← host.listen c.listenAddress with
    | .error e => return .ended (.failure [] e.message e.causes)
    | .ok () =>
      match ← loadFeed host c blocks with
      | .error e => return .ended (.ofError e)
      | .ok feed => return .full { c with mode := .full } feed
  | .lite =>
    if c.peers.isEmpty then
      return .ended (.failure [] "a lite node needs at least one peer to sync from" [])
    else return .lite { c with mode := .lite }

def run (env : Environment) (args : List String) : m Launch := do
  match Invocation.ofArguments env args with
  | .misuse => return .ended ⟨2, "", HelpTopic.program.text env⟩
  | .help topic => return .ended ⟨0, topic.text env, ""⟩
  | .run options command =>
    match ← loadConfig host options.config with
    | .error e =>
      return .ended (.within ("loading config " ++ options.config.getD "") (.config e))
    | .ok c =>
      let c := override c options
      match LogFormat.ofName c.logFormat with
      | .error e => return .ended (.ofError (.config e))
      | .ok _ => return complain c (← launch host c command)

end Command

end DaoLedger
