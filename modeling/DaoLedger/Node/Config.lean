import DaoLedger.Toml.Reader
import DaoLedger.Toml.Printer
import DaoLedger.Text.Quoted
import DaoLedger.Sync.Address
import DaoLedger.Node.FileError
import DaoLedger.Chain.Block
/-!
The configuration of a node, read from and written as TOML. What is left out has a default, and
unknown keys are ignored.
-/
namespace DaoLedger

inductive NodeMode where
  | full
  | lite
deriving DecidableEq, Inhabited, Repr

def NodeMode.name : NodeMode → String
  | .full => "full"
  | .lite => "lite"

inductive LogFormat where
  | human | json
deriving DecidableEq, Inhabited, Repr

inductive ConfigError where
  | unreadable
  | file (path : String) (error : FileError)
  | yearNotPositive
  | emptyGenesisId
  | unknownLogFormat (name : String)
  | notALogFormat (name : String)
deriving DecidableEq, Inhabited, Repr

def ConfigError.message : ConfigError → String
  | .unreadable => "config error: TOML parse error"
  | .file path error => "config error: " ++ path ++ ": " ++ error.message
  | .yearNotPositive => "config error: blocks_per_year must be positive"
  | .emptyGenesisId => "config error: genesis tx_id must not be empty"
  | .unknownLogFormat name =>
    "config error: unknown log_format " ++ Text.quoted name ++ ", expected \"human\" or \"json\""
  | .notALogFormat name => "config error: unknown log format " ++ Text.quoted name

def LogFormat.ofName : String → Except ConfigError LogFormat
  | "human" => .ok .human
  | "json" => .ok .json
  | name => .error (.notALogFormat name)

structure NodeConfig where
  mode : NodeMode
  listenAddress : Address
  peers : List Address
  dataDirectory : String
  logFormat : String
  logLevel : String
  blocksPerYear : UInt32
  metricsEnabled : Bool
  metricsAddress : Address
  genesis : Genesis
deriving DecidableEq, Inhabited, Repr

namespace NodeConfig

def localhost (port : UInt16) : Address := .v4 ⟨127, 0, 0, 1⟩ port

def default : NodeConfig where
  mode := .full
  listenAddress := localhost 7860
  peers := []
  dataDirectory := "./bsq_data"
  logFormat := "human"
  logLevel := "info"
  blocksPerYear := 52560
  metricsEnabled := false
  metricsAddress := localhost 9796
  genesis := ⟨⟨"30af0050040befd8af25068cc697e418e09c2d8ebd8d411d2240591b9ec203cf"⟩, 111, 250000000⟩

/-! ### Reading -/

def text? : Toml → Option String
  | .text s => some s
  | _ => none

def bool? : Toml → Option Bool
  | .bool b => some b
  | _ => none

def natBelow? (bound : Nat) : Toml → Option Nat
  | .integer n => if 0 ≤ n ∧ n < bound then some n.toNat else none
  | _ => none

def address? (v : Toml) : Option Address := (text? v).bind Address.ofString?

def eachOf? {α : Type} (read : Toml → Option α) : List Toml → Option (List α)
  | [] => some []
  | v :: vs => do
    let a ← read v
    return a :: (← eachOf? read vs)

def addresses? : Toml → Option (List Address)
  | .array vs => eachOf? address? vs
  | _ => none

def modeOfName? : String → Option NodeMode
  | "full" => some .full
  | "lite" => some .lite
  | _ => none

/-- The name of a mode, or a table with the name as its only key and nothing in it. -/
def mode? : Toml → Option NodeMode
  | .text s => modeOfName? s
  | .table [(name, .table [])] => modeOfName? name
  | .table [(name, .array [])] => modeOfName? name
  | _ => none

def fieldOr {α : Type} (standard : α) (read : Toml → Option α) (v : Option Toml) : Option α :=
  match v with
  | none => some standard
  | some v => read v

/-- The genesis transaction, as a table or as a list of its fields in order. A date is a table in
which no field is known. -/
def genesis? (v : Toml) : Option Genesis := do
  let field (name : String) (i : Nat) : Option (Option Toml) :=
    match v with
    | .table fields => some (fields.lookup name)
    | .array items => some items[i]?
    | .datetime _ => some none
    | _ => none
  let txId ← fieldOr default.genesis.txId.text text? (← field "tx_id" 0)
  let blockHeight ←
    fieldOr default.genesis.blockHeight.toNat (natBelow? UInt32.size) (← field "block_height" 1)
  let totalSupply ←
    fieldOr default.genesis.totalSupply.toNat (natBelow? UInt64.size) (← field "total_supply" 2)
  return ⟨⟨txId⟩, UInt32.ofNat blockHeight, UInt64.ofNat totalSupply⟩

def ofFields? (fields : List (String × Toml)) : Option NodeConfig := do
  let d := default
  let blocksPerYear ←
    fieldOr d.blocksPerYear.toNat (natBelow? UInt32.size) (fields.lookup "blocks_per_year")
  return {
    mode := ← fieldOr d.mode mode? (fields.lookup "mode")
    listenAddress := ← fieldOr d.listenAddress address? (fields.lookup "listen_addr")
    peers := ← fieldOr d.peers addresses? (fields.lookup "peers")
    dataDirectory := ← fieldOr d.dataDirectory text? (fields.lookup "data_dir")
    logFormat := ← fieldOr d.logFormat text? (fields.lookup "log_format")
    logLevel := ← fieldOr d.logLevel text? (fields.lookup "log_level")
    blocksPerYear := UInt32.ofNat blocksPerYear
    metricsEnabled := ← fieldOr d.metricsEnabled bool? (fields.lookup "enable_metrics")
    metricsAddress := ← fieldOr d.metricsAddress address? (fields.lookup "metrics_addr")
    genesis := ← fieldOr d.genesis genesis? (fields.lookup "genesis") }

def validate (c : NodeConfig) : Except ConfigError NodeConfig :=
  if c.blocksPerYear = 0 then .error .yearNotPositive
  else if c.genesis.txId.text.isEmpty then .error .emptyGenesisId
  else if c.logFormat ≠ "human" ∧ c.logFormat ≠ "json" then .error (.unknownLogFormat c.logFormat)
  else .ok c

def ofToml (s : String) : Except ConfigError NodeConfig :=
  match (Toml.read? s).bind ofFields? with
  | none => .error .unreadable
  | some c => c.validate

/-! ### Writing -/

def fields (c : NodeConfig) : List (String × Toml) :=
  let address (a : Address) : Toml := .text (toString a)
  [("mode", .text c.mode.name), ("listen_addr", address c.listenAddress),
    ("peers", .array (c.peers.map address)), ("data_dir", .text c.dataDirectory),
    ("log_format", .text c.logFormat), ("log_level", .text c.logLevel),
    ("blocks_per_year", .integer c.blocksPerYear.toNat),
    ("enable_metrics", .bool c.metricsEnabled), ("metrics_addr", address c.metricsAddress),
    ("genesis", .table [("tx_id", .text c.genesis.txId.text),
      ("block_height", .integer c.genesis.blockHeight.toNat),
      ("total_supply", .integer c.genesis.totalSupply.toNat)])]

def toToml (c : NodeConfig) : String := Toml.print c.fields

end NodeConfig

end DaoLedger
