import DaoLedger.Json.Token
/-!
JSON numbers as floats. The first digits are read as one whole number, which is then multiplied or
divided by powers of ten; each of these steps rounds, so the result may miss the nearest float.
-/
namespace DaoLedger.Json

structure Parts where
  negative : Bool
  digits : Nat
  power : Int
deriving DecidableEq, Inhabited, Repr

def digitsValue (ds : List Char) : Nat := (Text.ofDecimal? ds).getD 0

def exponentOf : List Char → Int
  | _ :: '-' :: ds => -(digitsValue ds : Int)
  | _ :: '+' :: ds => digitsValue ds
  | _ :: ds => digitsValue ds
  | [] => 0

def appendDigit (n : Nat) (c : Char) : Nat := 10 * n + (c.toNat - '0'.toNat)

def appendWhole (n : Nat) : List Char → Nat × Nat
  | [] => (n, 0)
  | c :: cs =>
    if appendDigit n c < UInt64.size then appendWhole (appendDigit n c) cs
    else (n, (c :: cs).length)

def appendPlaces (n : Nat) : List Char → Nat × Nat
  | [] => (n, 0)
  | c :: cs =>
    if appendDigit n c < UInt64.size then
      let (m, appended) := appendPlaces (appendDigit n c) cs
      (m, appended + 1)
    else (n, 0)

/-- The parts of a literal that is a number. Digits before the point that do not fit count as
zeros; those after it are left out. -/
def partsOf (negative : Bool) (literal : List Char) : Parts :=
  let (whole, left) := appendWhole 0 (literal.takeWhile isDigit)
  match literal.dropWhile isDigit with
  | '.' :: rest =>
    let (digits, places) := appendPlaces whole (rest.takeWhile isDigit)
    ⟨negative, digits, exponentOf (rest.dropWhile isDigit) + left - places⟩
  | rest => ⟨negative, whole, exponentOf rest + left⟩

def tenTo (n : Nat) : Float := Float.ofScientific 1 false n

def powerLimit : Nat := 308

def scale (x : Float) (power : Int) : Nat → Option Float
  | 0 => some x
  | n + 1 =>
    if power.natAbs ≤ powerLimit then
      if 0 ≤ power then
        let y := x * tenTo power.natAbs
        if y.isInf then none else some y
      else some (x / tenTo power.natAbs)
    else if x == 0 then some x
    else if 0 ≤ power then none
    else scale (x / tenTo powerLimit) (power + powerLimit) n

/-- The float that the parts make. Three steps down leave nothing of any number. -/
def Parts.float? (p : Parts) : Option Float :=
  (scale (UInt64.ofNat p.digits).toFloat p.power 5).map fun x => if p.negative then -x else x

def float? : Json → Option Float
  | .number literal =>
    match literal.toList with
    | '-' :: cs => (partsOf true cs).float?
    | cs => (partsOf false cs).float?
  | _ => none

end DaoLedger.Json
