/-!
TOML values. Of floats and dates only the text is kept.
-/
namespace DaoLedger

inductive Toml where
  | text (s : String)
  | integer (n : Int)
  | float (literal : String)
  | bool (b : Bool)
  | datetime (literal : String)
  | array (items : List Toml)
  | table (fields : List (String × Toml))
deriving Inhabited, Repr, BEq

namespace Toml

abbrev Scan := StateT (List Char) Option

def Scan.fail {α : Type} : Scan α := fun _ => none

def Scan.peek : Scan (Option Char) := fun cs => some (cs.head?, cs)

def Scan.char (c : Char) : Scan Unit
  | [] => none
  | d :: cs => if d = c then some ((), cs) else none

def Scan.accept (c : Char) : Scan Bool
  | [] => some (false, [])
  | d :: cs => if d = c then some (true, cs) else some (false, d :: cs)

def Scan.takeWhile (p : Char → Bool) : Scan (List Char) := fun cs =>
  some (cs.takeWhile p, cs.dropWhile p)

def Scan.one (p : Char → Bool) : Scan Char
  | [] => none
  | c :: cs => if p c then some (c, cs) else none

/-- Reads if it can, and otherwise stays where it is. -/
def Scan.optional {α : Type} (p : Scan α) : Scan (Option α) := fun cs =>
  match p cs with
  | some (a, rest) => some (some a, rest)
  | none => some (none, cs)

def isBlank (c : Char) : Bool := c == ' ' || c == '\t'

def isDigit (c : Char) : Bool := '0' ≤ c && c ≤ '9'

def isPlain (c : Char) : Bool := c == '\t' || (0x20 ≤ c.toNat && c.toNat ≠ 0x7f)

def Scan.blanks : Scan Unit := do
  let _ ← Scan.takeWhile isBlank

def Scan.newline : Scan Unit
  | '\n' :: cs => some ((), cs)
  | '\r' :: '\n' :: cs => some ((), cs)
  | _ => none

def startsLine : List Char → Bool
  | '\n' :: _ => true
  | '\r' :: '\n' :: _ => true
  | _ => false

def Scan.comment : Scan Unit := do
  Scan.char '#'
  let _ ← Scan.takeWhile isPlain

end Toml

end DaoLedger
