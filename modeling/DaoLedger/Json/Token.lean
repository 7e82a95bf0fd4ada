import DaoLedger.Text.Digits
import DaoLedger.Json.Basic
/-!
The tokens of a JSON text: the six marks and the scalar values. Between two tokens stands blank
space or nothing; a number or a word ends where the first foreign character stands.
-/
namespace DaoLedger.Json

inductive Token where
  | mark (c : Char)
  | scalar (v : Json)
deriving Inhabited, Repr, BEq

def isMark (c : Char) : Bool := c ∈ ['[', ']', '{', '}', ':', ',']

def isBlank (c : Char) : Bool := c ∈ [' ', '\t', '\n', '\r']

def isDigit (c : Char) : Bool := '0' ≤ c && c ≤ '9'

def inNumber (c : Char) : Bool := isDigit c || c ∈ ['-', '+', '.', 'e', 'E']

def isLetter (c : Char) : Bool := 'a' ≤ c && c ≤ 'z'

/-! ### Numbers -/

def isExponent : List Char → Bool
  | [] => true
  | c :: cs => (c == 'e' || c == 'E') &&
    match cs with
    | '+' :: ds => !ds.isEmpty && ds.all isDigit
    | '-' :: ds => !ds.isEmpty && ds.all isDigit
    | ds => !ds.isEmpty && ds.all isDigit

def isFraction : List Char → Bool
  | '.' :: cs => !(cs.takeWhile isDigit).isEmpty && isExponent (cs.dropWhile isDigit)
  | cs => isExponent cs

def isUnsigned (cs : List Char) : Bool :=
  let whole := cs.takeWhile isDigit
  (whole == ['0'] || (!whole.isEmpty && whole.head? != some '0'))
    && isFraction (cs.dropWhile isDigit)

def isNumber : List Char → Bool
  | '-' :: cs => isUnsigned cs
  | cs => isUnsigned cs

/-! ### Texts -/

/-- What stands for one character in a quoted text: itself, or an escaped code unit. -/
inductive Code where
  | char (c : Char)
  | unit (n : Nat)

def fourHex? (a b c d : Char) : Option Nat := do
  let w ← Text.hexValue? a
  let x ← Text.hexValue? b
  let y ← Text.hexValue? c
  let z ← Text.hexValue? d
  return 4096 * w + 256 * x + 16 * y + z

def shortEscape? : Char → Option Char
  | '"' => some '"'
  | '\\' => some '\\'
  | '/' => some '/'
  | 'b' => some '\x08'
  | 'f' => some '\x0c'
  | 'n' => some '\n'
  | 'r' => some '\r'
  | 't' => some '\t'
  | _ => none

def codes? : List Char → Option (List Code)
  | [] => some []
  | '\\' :: 'u' :: a :: b :: c :: d :: cs => do
    let n ← fourHex? a b c d
    return .unit n :: (← codes? cs)
  | '\\' :: c :: cs => do
    let e ← shortEscape? c
    return .char e :: (← codes? cs)
  | c :: cs => if c == '\\' || c.toNat < 0x20 then none else (codes? cs).map (.char c :: ·)

def isHigh (n : Nat) : Bool := 0xd800 ≤ n && n < 0xdc00

def isLow (n : Nat) : Bool := 0xdc00 ≤ n && n < 0xe000

/-- Joins surrogate pairs; a half that stands alone gives `none`. -/
def characters : List Code → List (Option Char)
  | [] => []
  | .char c :: cs => some c :: characters cs
  | .unit n :: .unit m :: cs =>
    if isHigh n && isLow m then
      some (Char.ofNat (0x10000 + 0x400 * (n - 0xd800) + (m - 0xdc00))) :: characters cs
    else (if isHigh n || isLow n then none else some (Char.ofNat n)) :: characters (.unit m :: cs)
  | .unit n :: cs => (if isHigh n || isLow n then none else some (Char.ofNat n)) :: characters cs

def everyOne : List (Option Char) → Option (List Char)
  | [] => some []
  | none :: _ => none
  | some c :: cs => (everyOne cs).map (c :: ·)

def unquote? (raw : List Char) : Option Json :=
  (codes? raw).map fun cs =>
    match everyOne (characters cs) with
    | some s => .text (String.ofList s)
    | none => .broken

/-! ### Scanning -/

/-- The token in the middle of which the scanner stands, with its characters in reverse. -/
inductive Partly where
  | nothing
  | word (seen : List Char)
  | number (seen : List Char)
  | text (seen : List Char) (escaped : Bool)

def ofWord? : List Char → Option Json
  | ['n', 'u', 'l', 'l'] => some .null
  | ['t', 'r', 'u', 'e'] => some (.bool true)
  | ['f', 'a', 'l', 's', 'e'] => some (.bool false)
  | _ => none

def ofNumber? (cs : List Char) : Option Json :=
  if isNumber cs then some (.number (String.ofList cs)) else none

def Partly.finish? : Partly → Option (List Token)
  | .nothing => some []
  | .word seen => (ofWord? seen.reverse).map fun v => [.scalar v]
  | .number seen => (ofNumber? seen.reverse).map fun v => [.scalar v]
  | .text _ _ => none

def begin? (c : Char) : Option (Partly × List Token) :=
  if isBlank c then some (.nothing, [])
  else if isMark c then some (.nothing, [.mark c])
  else if isLetter c then some (.word [c], [])
  else if inNumber c then some (.number [c], [])
  else if c == '"' then some (.text [] false, [])
  else none

/-- One character on; the list holds the tokens that it completes, the last first. -/
def Partly.step? (c : Char) : Partly → Option (Partly × List Token)
  | .nothing => begin? c
  | .word seen =>
    if isLetter c then some (.word (c :: seen), [])
    else do
      let ended ← (Partly.word seen).finish?
      let (next, begun) ← begin? c
      return (next, begun ++ ended)
  | .number seen =>
    if inNumber c then some (.number (c :: seen), [])
    else do
      let ended ← (Partly.number seen).finish?
      let (next, begun) ← begin? c
      return (next, begun ++ ended)
  | .text seen true => some (.text (c :: seen) false, [])
  | .text seen false =>
    if c == '"' then (unquote? seen.reverse).map fun v => (.nothing, [.scalar v])
    else some (.text (c :: seen) (c == '\\'), [])

def scanFrom? (now : Partly) (found : List Token) : List Char → Option (List Token)
  | [] => now.finish?.map fun ended => (ended ++ found).reverse
  | c :: cs =>
    match now.step? c with
    | none => none
    | some (next, completed) => scanFrom? next (completed ++ found) cs

def scan? (cs : List Char) : Option (List Token) := scanFrom? .nothing [] cs

end DaoLedger.Json
