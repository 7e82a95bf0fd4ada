import DaoLedger.Toml.Basic
import DaoLedger.Text.Digits
/-!
The four kinds of TOML texts: with escapes or literal, on one line or on several.
-/
namespace DaoLedger.Toml

def hexNumber? : Nat → List Char → Option Nat
  | n, [] => some n
  | n, c :: cs => (DaoLedger.Text.hexValue? c).bind fun d => hexNumber? (16 * n + d) cs

def hexChar? (digits : List Char) : Option Char :=
  (hexNumber? 0 digits).bind fun n => if n.isValidChar then some (Char.ofNat n) else none

def shortEscape? : Char → Option Char
  | 'b' => some '\x08'
  | 't' => some '\t'
  | 'n' => some '\n'
  | 'f' => some '\x0c'
  | 'r' => some '\r'
  | '"' => some '"'
  | '\\' => some '\\'
  | _ => none

def consTo (c : Char) (r : List Char × List Char) : List Char × List Char := (c :: r.1, r.2)

def basic : Scan (List Char)
  | '"' :: cs => some ([], cs)
  | '\\' :: 'u' :: a :: b :: c :: d :: cs => do
    let x ← hexChar? [a, b, c, d]
    return consTo x (← basic cs)
  | '\\' :: 'U' :: a :: b :: c :: d :: e :: f :: g :: h :: cs => do
    let x ← hexChar? [a, b, c, d, e, f, g, h]
    return consTo x (← basic cs)
  | '\\' :: c :: cs => do
    let x ← shortEscape? c
    return consTo x (← basic cs)
  | c :: cs => if isPlain c && c != '\\' then (basic cs).map (consTo c) else none
  | [] => none

def literal : Scan (List Char)
  | '\'' :: cs => some ([], cs)
  | c :: cs => if isPlain c then (literal cs).map (consTo c) else none
  | [] => none

/-- Up to two quotes before the three that end a text belong to it. -/
def closing (quote : Char) : List Char → List Char × List Char
  | a :: b :: cs =>
    if a == quote then if b == quote then ([quote, quote], cs) else ([quote], b :: cs)
    else ([], a :: b :: cs)
  | [a] => if a == quote then ([quote], []) else ([], [a])
  | [] => ([], [])

/-- The rest of a text in double quotes on several lines. After a backslash at the end of a line,
blanks and line ends are skipped. -/
def basicLines (skipping : Bool) : Scan (List Char)
  | '"' :: '"' :: '"' :: cs => some (closing '"' cs)
  | '\\' :: 'u' :: a :: b :: c :: d :: cs => do
    let x ← hexChar? [a, b, c, d]
    return consTo x (← basicLines false cs)
  | '\\' :: 'U' :: a :: b :: c :: d :: e :: f :: g :: h :: cs => do
    let x ← hexChar? [a, b, c, d, e, f, g, h]
    return consTo x (← basicLines false cs)
  | '\\' :: c :: cs =>
    if startsLine ((c :: cs).dropWhile isBlank) then
      if isBlank c || c == '\n' || c == '\r' then basicLines true cs else none
    else do
      let x ← shortEscape? c
      return consTo x (← basicLines false cs)
  | '\r' :: '\n' :: cs =>
    if skipping then basicLines true cs else (basicLines false cs).map (consTo '\n')
  | '\n' :: cs => if skipping then basicLines true cs else (basicLines false cs).map (consTo '\n')
  | c :: cs =>
    if skipping && isBlank c then basicLines true cs
    else if isPlain c && c != '\\' then (basicLines false cs).map (consTo c)
    else none
  | [] => none

def literalLines : Scan (List Char)
  | '\'' :: '\'' :: '\'' :: cs => some (closing '\'' cs)
  | '\r' :: '\n' :: cs => (literalLines cs).map (consTo '\n')
  | '\n' :: cs => (literalLines cs).map (consTo '\n')
  | c :: cs => if isPlain c then (literalLines cs).map (consTo c) else none
  | [] => none

def afterOpening : List Char → List Char
  | '\r' :: '\n' :: cs => cs
  | '\n' :: cs => cs
  | cs => cs

def lineText : Scan String
  | '"' :: cs => (basic cs).map fun (s, rest) => (String.ofList s, rest)
  | '\'' :: cs => (literal cs).map fun (s, rest) => (String.ofList s, rest)
  | _ => none

def Scan.text : Scan String
  | '"' :: '"' :: '"' :: cs =>
    (basicLines false (afterOpening cs)).map fun (s, rest) => (String.ofList s, rest)
  | '\'' :: '\'' :: '\'' :: cs =>
    (literalLines (afterOpening cs)).map fun (s, rest) => (String.ofList s, rest)
  | cs => lineText cs

end DaoLedger.Toml
