import DaoLedger.Text.Digits
import DaoLedger.Json.Basic
/-!
Writing JSON values, on one line or with every item and field on a line of its own.
-/
namespace DaoLedger.Json

def escape (c : Char) : List Char :=
  match c with
  | '"' => ['\\', '"']
  | '\\' => ['\\', '\\']
  | '\x08' => ['\\', 'b']
  | '\x0c' => ['\\', 'f']
  | '\n' => ['\\', 'n']
  | '\r' => ['\\', 'r']
  | '\t' => ['\\', 't']
  | c =>
    if c.toNat < 0x20 then
      ['\\', 'u', '0', '0', Text.digit (c.toNat / 16), Text.digit (c.toNat % 16)]
    else [c]

def quote (s : String) : List Char := '"' :: (s.toList.flatMap escape ++ ['"'])

def scalar : Json → List Char
  | .bool true => ['t', 'r', 'u', 'e']
  | .bool false => ['f', 'a', 'l', 's', 'e']
  | .number literal => literal.toList
  | .text s => quote s
  | _ => ['n', 'u', 'l', 'l']

mutual

def compact : Json → List Char
  | .array items => '[' :: (compactItems items ++ [']'])
  | .object fields => '{' :: (compactFields fields ++ ['}'])
  | v => scalar v

def compactItems : List Json → List Char
  | [] => []
  | [v] => compact v
  | v :: w :: vs => compact v ++ ',' :: compactItems (w :: vs)

def compactFields : List (String × Json) → List Char
  | [] => []
  | [(k, v)] => quote k ++ ':' :: compact v
  | (k, v) :: f :: fs => quote k ++ ':' :: (compact v ++ ',' :: compactFields (f :: fs))

end

def newline (depth : Nat) : List Char := '\n' :: List.replicate (2 * depth) ' '

mutual

/-- Two blanks further in for each open container; an empty container takes one line. -/
def prettyAt (depth : Nat) : Json → List Char
  | .array [] => ['[', ']']
  | .object [] => ['{', '}']
  | .array items => '[' :: (prettyItems (depth + 1) items ++ newline depth ++ [']'])
  | .object fields => '{' :: (prettyFields (depth + 1) fields ++ newline depth ++ ['}'])
  | v => scalar v

def prettyItems (depth : Nat) : List Json → List Char
  | [] => []
  | [v] => newline depth ++ prettyAt depth v
  | v :: w :: vs => newline depth ++ prettyAt depth v ++ ',' :: prettyItems depth (w :: vs)

def prettyFields (depth : Nat) : List (String × Json) → List Char
  | [] => []
  | [(k, v)] => newline depth ++ quote k ++ ':' :: ' ' :: prettyAt depth v
  | (k, v) :: f :: fs =>
    newline depth ++ quote k ++ ':' :: ' ' :: (prettyAt depth v ++ ',' :: prettyFields depth (f :: fs))

end

def pretty (v : Json) : String := String.ofList (prettyAt 0 v)

def line (v : Json) : String := String.ofList (compact v)

end DaoLedger.Json
