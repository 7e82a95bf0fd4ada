/-!
The filter of the log: directives with commas between them. A directive is a level, or says for a
target or a span from which level on it is logged. One that makes no sense is passed over with a
complaint.
-/
namespace DaoLedger.LogFilter

inductive Flaw where
  | malformed
  | unknownLevel
deriving DecidableEq, Inhabited, Repr

def Flaw.message : Flaw → String
  | .malformed => "invalid filter directive"
  | .unknownLevel => "error parsing level filter: expected one of \"off\", \"error\", \"warn\", "
    ++ "\"info\", \"debug\", \"trace\", or a number 0-5"

def levelNames : List String := ["off", "error", "warn", "info", "debug", "trace"]

def isLevelNumber (cs : List Char) : Bool :=
  let digits := if cs.head? = some '+' then cs.tail else cs
  !digits.isEmpty && digits.all Char.isDigit
    && (digits.dropWhile (· == '0')).length ≤ 1 && digits.getLast?.any (· ≤ '5')

/-- A level by name, in any case, or by number. No text at all stands for the lowest level. -/
def isLevel (cs : List Char) : Bool :=
  cs.isEmpty || isLevelNumber cs || (String.ofList (cs.map Char.toLower)) ∈ levelNames

inductive Mode where
  | start
  | name
  | span
  | field (empty : Bool)
  | afterFields
  | afterSpan
  | level (seen : List Char)
deriving DecidableEq, Inhabited, Repr

/-- Letters and digits of any script can begin a name; outside ASCII no others are looked for. -/
def beginsName (c : Char) : Bool := c.isAlphanum || c ∈ ['-', ':', '_'] || 0x80 ≤ c.toNat

def Mode.next? : Mode → Char → Option Mode
  | .start, '[' => some .span
  | .start, c => if beginsName c then some .name else none
  | .name, '=' => some (.level [])
  | .name, '[' => some .span
  | .name, _ => some .name
  | .span, ']' => some .afterSpan
  | .span, '{' => some (.field true)
  | .span, _ => some .span
  | .field empty, '}' => if empty then none else some .afterFields
  | .field _, _ => some (.field false)
  | .afterFields, ']' => some .afterSpan
  | .afterFields, _ => none
  | .afterSpan, '=' => some (.level [])
  | .afterSpan, _ => none
  | .level seen, c => some (.level (c :: seen))

def Mode.end? : Mode → Option Flaw
  | .name | .afterSpan => none
  | .level seen => if isLevel seen.reverse then none else some .unknownLevel
  | .start | .span | .field _ | .afterFields => some .malformed

def flawFrom? (mode : Mode) : List Char → Option Flaw
  | [] => mode.end?
  | c :: cs =>
    match mode.next? c with
    | none => some .malformed
    | some mode => flawFrom? mode cs

def dropBlanks (cs : List Char) : List Char := cs.dropWhile Char.isWhitespace

def flaw? (directive : String) : Option Flaw :=
  flawFrom? .start (dropBlanks (dropBlanks directive.toList).reverse).reverse

def complaints (filter : String) : List String :=
  ((filter.splitOn ",").filter (· ≠ "")).filterMap fun directive =>
    (flaw? directive).map fun flaw => "ignoring \x60" ++ directive ++ "\x60: " ++ flaw.message

end DaoLedger.LogFilter
