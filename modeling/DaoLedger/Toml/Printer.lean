import DaoLedger.Toml.Basic
import DaoLedger.Text.Digits
/-!
Writing TOML. A text is written in the first of five forms that shows it without escapes, and with
escapes if none does; arrays of two or more items take a line for each.
-/
namespace DaoLedger.Toml

def longestRun (c : Char) : Nat → Nat → List Char → Nat
  | _, best, [] => best
  | run, best, d :: cs =>
    if d == c then longestRun c (run + 1) (max best (run + 1)) cs else longestRun c 0 best cs

def isControl (c : Char) : Bool := c != '\t' && c != '\n' && (c.toNat ≤ 0x1f || c.toNat == 0x7f)

def escaped (c : Char) : List Char :=
  match c with
  | '\x08' => ['\\', 'b']
  | '\t' => ['\\', 't']
  | '\x0c' => ['\\', 'f']
  | '\r' => ['\\', 'r']
  | '\\' => ['\\', '\\']
  | c =>
    if isControl c then
      let hex := (DaoLedger.Text.hexDigits c.toNat).map Char.toUpper
      ['\\', 'u'] ++ List.replicate (4 - hex.length) '0' ++ hex
    else [c]

/-- The characters of a text in double quotes; in a text of several lines two quotes in a row need
no escape. -/
def basicBody (lines : Bool) (quotes : Nat) : List Char → List Char
  | [] => []
  | c :: cs =>
    if c == '"' then
      if quotes < (if lines then 2 else 0) then c :: basicBody lines (quotes + 1) cs
      else '\\' :: '"' :: basicBody lines 0 cs
    else if c == '\n' then
      if lines then c :: basicBody lines 0 cs else '\\' :: 'n' :: basicBody lines 0 cs
    else escaped c ++ basicBody lines 0 cs

def textBody (cs : List Char) : List Char :=
  let newline := cs.contains '\n'
  let control := cs.any isControl
  let backslash := cs.contains '\\'
  let singles := longestRun '\'' 0 0 cs
  let doubles := longestRun '"' 0 0 cs
  let opening := if newline then ['\n'] else []
  if !control && !backslash && doubles == 0 && !newline then
    '"' :: (basicBody false 0 cs ++ ['"'])
  else if !control && singles == 0 && !newline then '\'' :: (cs ++ ['\''])
  else if !control && !backslash && doubles ≤ 2 then
    ['"', '"', '"'] ++ opening ++ basicBody true 0 cs ++ ['"', '"', '"']
  else if !control && singles ≤ 2 then
    ['\'', '\'', '\''] ++ opening ++ cs ++ ['\'', '\'', '\'']
  else if newline then ['"', '"', '"', '\n'] ++ basicBody true 0 cs ++ ['"', '"', '"']
  else '"' :: (basicBody false 0 cs ++ ['"'])

def printText (s : String) : String := String.ofList (textBody s.toList)

def printScalar : Toml → String
  | .text s => printText s
  | .integer n => toString n
  | .float literal => literal
  | .bool b => toString b
  | .datetime literal => literal
  | .array _ => "[]"
  | .table _ => "\x7b\x7d"

def printItems : List String → String
  | [] => "[]"
  | [v] => "[" ++ v ++ "]"
  | vs => "[\n" ++ String.join (vs.map fun v => "    " ++ v ++ ",\n") ++ "]"

def printValue : Toml → String
  | .array items => printItems (items.map printScalar)
  | v => printScalar v

def printPair (key : String) (v : Toml) : String := key ++ " = " ++ printValue v ++ "\n"

def printPairs (fields : List (String × Toml)) : String :=
  String.join (fields.map fun (k, v) => printPair k v)

def print (fields : List (String × Toml)) : String :=
  let own := fields.filter fun (_, v) => match v with | .table _ => false | _ => true
  printPairs own ++ String.join (fields.map fun (k, v) =>
    match v with
    | .table sub => "\n[" ++ k ++ "]\n" ++ printPairs sub
    | _ => "")

end DaoLedger.Toml
