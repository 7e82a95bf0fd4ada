import DaoLedger.Toml.Text
import DaoLedger.Toml.Number
import DaoLedger.Toml.Table
/-!
Reading TOML documents. Arrays and inline tables nest below `depthLimit`, and so do dotted keys.
-/
namespace DaoLedger.Toml

def depthLimit : Nat := 80

def isBareKey (c : Char) : Bool :=
  isDigit c || ('a' ≤ c && c ≤ 'z') || ('A' ≤ c && c ≤ 'Z') || c == '_' || c == '-'

def simpleKey : Scan String := do
  match ← Scan.peek with
  | some '"' | some '\'' => lineText
  | _ =>
    let c ← Scan.one isBareKey
    return String.ofList (c :: (← Scan.takeWhile isBareKey))

def moreKeys : Nat → Scan (List String)
  | 0 => Scan.fail
  | n + 1 => do
    Scan.blanks
    if ← Scan.accept '.' then
      Scan.blanks
      let k ← simpleKey
      return k :: (← moreKeys n)
    else return []

def key : Scan (List String × String) := do
  Scan.blanks
  let first ← simpleKey
  let keys := first :: (← moreKeys (depthLimit - 1))
  return (keys.dropLast, keys.getLastD first)

def gap : Nat → Scan Unit
  | 0 => Scan.fail
  | n + 1 => do
    Scan.blanks
    match ← Scan.peek with
    | some '#' =>
      Scan.comment
      Scan.newline
      gap n
    | some '\n' | some '\r' =>
      Scan.newline
      gap n
    | _ => return ()

mutual

/-- A value; `depth` says how many more containers may be opened, `n` bounds the steps. -/
def value (depth : Nat) : Nat → Scan Toml
  | 0 => Scan.fail
  | n + 1 => do
    match ← Scan.peek with
    | some '"' | some '\'' => return .text (← Scan.text)
    | some '[' =>
      if depth = 0 then Scan.fail
      else
        Scan.char '['
        gap n
        if ← Scan.accept ']' then return .array []
        else return .array (← items (depth - 1) n)
    | some '{' =>
      if depth = 0 then Scan.fail
      else
        Scan.char '{'
        Scan.blanks
        if ← Scan.accept '}' then return .table []
        else return .table (freezeFields (← pairs (depth - 1) n []))
    | some 't' =>
      word ['t', 'r', 'u', 'e']
      return .bool true
    | some 'f' =>
      word ['f', 'a', 'l', 's', 'e']
      return .bool false
    | _ => number

def items (depth : Nat) : Nat → Scan (List Toml)
  | 0 => Scan.fail
  | n + 1 => do
    let v ← value depth n
    gap n
    if ← Scan.accept ',' then
      gap n
      if ← Scan.accept ']' then return [v]
      else return v :: (← items depth n)
    else
      Scan.char ']'
      return [v]

def pairs (depth : Nat) : Nat → Fields → Scan Fields
  | 0, _ => Scan.fail
  | n + 1, fields => do
    let (path, k) ← key
    Scan.char '='
    Scan.blanks
    let v ← value depth n
    let fields ← StateT.lift (assign k v path fields)
    Scan.blanks
    if ← Scan.accept ',' then pairs depth n fields
    else
      Scan.char '}'
      return fields

end

def lineEnd : Scan Unit := do
  Scan.blanks
  if (← Scan.peek) = some '#' then Scan.comment
  if (← Scan.peek).isSome then Scan.newline

structure Document where
  root : Fields
  header : List String

def line (d : Document) (n : Nat) : Scan Document := do
  match ← Scan.peek with
  | some '[' =>
    Scan.char '['
    if ← Scan.accept '[' then
      let (path, k) ← key
      Scan.char ']'
      Scan.char ']'
      lineEnd
      return ⟨← StateT.lift (openItem path k d.root), path ++ [k]⟩
    else
      let (path, k) ← key
      Scan.char ']'
      lineEnd
      return ⟨← StateT.lift (openTable path k d.root), path ++ [k]⟩
  | _ =>
    let (path, k) ← key
    Scan.char '='
    Scan.blanks
    let v ← value (depthLimit - 1) n
    lineEnd
    return { d with root := ← StateT.lift (editAt (assign k v path) d.header d.root) }

def lines (steps : Nat) : Nat → Document → Scan Document
  | 0, _ => Scan.fail
  | n + 1, d => do
    Scan.blanks
    match ← Scan.peek with
    | none => return d
    | some '#' | some '\n' | some '\r' =>
      lineEnd
      lines steps n d
    | _ =>
      let d ← line d steps
      lines steps n d

def skipMark : List Char → List Char
  | '\ufeff' :: cs => cs
  | cs => cs

/-- Every step takes a character or is followed by two that do, so the bounds are never reached. -/
def read? (s : String) : Option (List (String × Toml)) :=
  let cs := skipMark s.toList
  match lines (3 * cs.length + 3) (cs.length + 1) ⟨[], []⟩ cs with
  | some (d, []) => some (freezeFields d.root)
  | _ => none

end DaoLedger.Toml
