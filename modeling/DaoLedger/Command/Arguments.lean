/-!
The arguments of the program: options, then a command with what belongs to it. What the arguments
leave open may come from the environment.
-/
namespace DaoLedger

inductive Command where
  | full (blocks : Option String)
  | lite
  | replay (file : String)
deriving DecidableEq, Inhabited, Repr

structure Options where
  config : Option String
  logLevel : Option String
  logFormat : Option String
  metrics : Bool
deriving DecidableEq, Inhabited, Repr

inductive HelpTopic where
  | program | full | lite | replay | help
deriving DecidableEq, Inhabited, Repr

inductive Invocation where
  | run (options : Options) (command : Command)
  | help (topic : HelpTopic)
  | misuse
deriving DecidableEq, Inhabited, Repr

abbrev Environment := List (String × String)

namespace Arguments

/-- Whether an argument can be the value of an option or stand alone; a single dash can. -/
def isValue (arg : String) : Bool :=
  match arg.toList with
  | '-' :: _ :: _ => false
  | _ => true

def isHelp (arg : String) : Bool :=
  arg == "--help" || match arg.toList with
  | '-' :: 'h' :: _ => true
  | _ => false

def attached? (name arg : String) : Option String :=
  let mark := name.toList ++ ['=']
  if mark.isPrefixOf arg.toList then some (String.ofList (arg.toList.drop mark.length)) else none

inductive ValueOption where
  | config | logLevel | logFormat
deriving DecidableEq, Inhabited, Repr

namespace ValueOption

def all : List ValueOption := [.config, .logLevel, .logFormat]

def name : ValueOption → String
  | .config => "--config"
  | .logLevel => "--log-level"
  | .logFormat => "--log-format"

def environmentName : ValueOption → String
  | .config => "BSQ_CONFIG"
  | .logLevel => "BSQ_LOG_LEVEL"
  | .logFormat => "BSQ_LOG_FORMAT"

def get (o : ValueOption) (given : Options) : Option String :=
  match o with
  | .config => given.config
  | .logLevel => given.logLevel
  | .logFormat => given.logFormat

def set (o : ValueOption) (given : Options) (value : String) : Options :=
  match o with
  | .config => { given with config := some value }
  | .logLevel => { given with logLevel := some value }
  | .logFormat => { given with logFormat := some value }

end ValueOption

def metricsVariable : String := "BSQ_ENABLE_METRICS"

def valueOption? (arg : String) : Option (ValueOption × Option String) :=
  ValueOption.all.findSome? fun o =>
    if arg = o.name then some (o, none)
    else (attached? o.name arg).map fun value => (o, some value)

def accept? (given : Options) (o : ValueOption) (value : String) : Option Options :=
  if (o.get given).isSome || (o = .config && value.isEmpty) then none
  else some (o.set given value)

/-! ### Commands -/

inductive Parsed where
  | command (c : Command)
  | help (topic : HelpTopic)
  | misuse
deriving DecidableEq, Inhabited, Repr

def fullArguments (blocks : Option String) : List String → Parsed
  | [] => .command (.full blocks)
  | ["--"] => .command (.full blocks)
  | ["--blocks"] => .misuse
  | arg :: value :: args =>
    if isHelp arg then .help .full
    else if blocks.isSome then .misuse
    else if arg = "--blocks" then
      if isValue value && !value.isEmpty then fullArguments (some value) args else .misuse
    else
      match attached? "--blocks" arg with
      | some path => if path.isEmpty then .misuse else fullArguments (some path) (value :: args)
      | none => .misuse
  | [arg] =>
    if isHelp arg then .help .full
    else
      match attached? "--blocks" arg, blocks with
      | some path, none => if path.isEmpty then .misuse else .command (.full (some path))
      | _, _ => .misuse

def liteArguments : List String → Parsed
  | [] => .command .lite
  | ["--"] => .command .lite
  | arg :: _ => if isHelp arg then .help .lite else .misuse

def replayFile (file : String) : Parsed :=
  if file.isEmpty then .misuse else .command (.replay file)

/-- The arguments that are left, with the file if it has been named. After two dashes everything
is a file. -/
def replayArguments (file : Option String) : List String → Parsed
  | [] => (file.map replayFile).getD .misuse
  | "--" :: rest =>
    match file, rest with
    | some file, [] => replayFile file
    | none, [file] => replayFile file
    | _, _ => .misuse
  | arg :: args =>
    if isHelp arg then if file = some "" then .misuse else .help .replay
    else if isValue arg && file.isNone then replayArguments (some arg) args
    else .misuse

def helpArguments : List String → Parsed
  | [] => .help .program
  | ["full"] => .help .full
  | ["lite"] => .help .lite
  | ["replay"] => .help .replay
  | ["help"] => .help .help
  | _ => .misuse

def command : String → List String → Parsed
  | "full", args => fullArguments none args
  | "lite", args => liteArguments args
  | "replay", args => replayArguments none args
  | "help", args => helpArguments args
  | _, _ => .misuse

/-! ### Options -/

/-- What the environment adds. A variable that is there has to have a sensible value unless its
option is given. -/
def complete (env : Environment) (given : Options) : Option Options := do
  let fill (o : ValueOption) : Option String := (o.get given).or (env.lookup o.environmentName)
  let metrics ←
    if given.metrics then some true
    else
      match env.lookup metricsVariable with
      | none => some false
      | some "true" => some true
      | some "false" => some false
      | some _ => none
  if fill .config = some "" then none
  else return ⟨fill .config, fill .logLevel, fill .logFormat, metrics⟩

/-- The options read so far. A value that is an argument of its own is looked at only when the
next option comes, or after the command. -/
structure Reading where
  given : Options
  waiting : Option (ValueOption × String)

namespace Reading

def start : Reading := ⟨⟨none, none, none, false⟩, none⟩

def settle? (r : Reading) : Option Options :=
  match r.waiting with
  | none => some r.given
  | some (o, value) => accept? r.given o value

def attach? (r : Reading) (o : ValueOption) (value : String) : Option Reading :=
  (r.settle?.bind fun given => accept? given o value).map (⟨·, none⟩)

def await? (r : Reading) (o : ValueOption) (value : String) : Option Reading :=
  r.settle?.map (⟨·, some (o, value)⟩)

def metrics? (r : Reading) : Option Reading :=
  r.settle?.bind fun given =>
    if given.metrics then none else some ⟨{ given with metrics := true }, none⟩

/-- Help that is asked for after the command comes before all that is wrong with the value that
waits and with the environment. -/
def finish (r : Reading) (env : Environment) : Parsed → Invocation
  | .help topic => .help topic
  | .misuse => .misuse
  | .command c =>
    match r.settle?.bind (complete env) with
    | none => .misuse
    | some options => .run options c

end Reading

def read (env : Environment) (r : Reading) : List String → Invocation
  | [] => .misuse
  | arg :: args =>
    if isHelp arg then if r.settle?.isSome then .help .program else .misuse
    else if arg = "--metrics" then
      match r.metrics? with
      | none => .misuse
      | some r => read env r args
    else
      match valueOption? arg with
      | some (o, some value) =>
        match r.attach? o value with
        | none => .misuse
        | some r => read env r args
      | some (o, none) =>
        match args with
        | [] => .misuse
        | value :: args =>
          if isValue value then
            match r.await? o value with
            | none => .misuse
            | some r => read env r args
          else .misuse
      | none => if isValue arg then r.finish env (command arg args) else .misuse

end Arguments

def Invocation.ofArguments (env : Environment) (args : List String) : Invocation :=
  Arguments.read env .start args

end DaoLedger
