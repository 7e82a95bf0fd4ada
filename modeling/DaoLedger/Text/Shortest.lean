import DaoLedger.Text.Digits
/-!
The shortest decimal text of a floating-point number: of the decimals that read back as the
number, one with the fewest digits, and of those the nearest. It is written without an exponent.
-/
namespace DaoLedger.Text

structure Decimal where
  digits : Nat
  exponent : Int
deriving DecidableEq, Inhabited, Repr

/-- A positive fraction with the bounds between which everything reads back as it, all over one
denominator. -/
structure Rounding where
  low : Nat
  value : Nat
  high : Nat
  denominator : Nat
  closed : Bool
deriving DecidableEq, Inhabited, Repr

namespace Rounding

/-- All four numbers for `mantissa * 2 ^ exponent`. Below a power of two the next number is only
half as far away. -/
def of (mantissa : Nat) (exponent : Int) (narrow : Bool) : Rounding :=
  let scale := Nat.pow 2 exponent.toNat
  { low := (4 * mantissa - if narrow then 1 else 2) * scale
    value := 4 * mantissa * scale
    high := (4 * mantissa + 2) * scale
    denominator := 4 * Nat.pow 2 (-exponent).toNat
    closed := mantissa % 2 = 0 }

def inUnits (r : Rounding) (p : Int) : Rounding :=
  let scale := Nat.pow 10 (-p).toNat
  { r with
    low := r.low * scale
    value := r.value * scale
    high := r.high * scale
    denominator := r.denominator * Nat.pow 10 p.toNat }

def admits (r : Rounding) (n : Nat) : Bool :=
  if r.closed then r.low ≤ n * r.denominator && n * r.denominator ≤ r.high
  else r.low < n * r.denominator && n * r.denominator < r.high

def nearest? (r : Rounding) : Option Nat :=
  let below := r.value / r.denominator
  let above := below + 1
  match r.admits below, r.admits above with
  | true, true =>
    if 2 * (r.value % r.denominator) < r.denominator then some below else some above
  | true, false => some below
  | false, true => some above
  | false, false => none

def magnitude (r : Rounding) : Int :=
  if r.denominator ≤ r.value then ((decimal (r.value / r.denominator)).length : Int) - 1
  else -(((List.range 400).find? fun k => r.denominator ≤ r.value * Nat.pow 10 k).getD 0 : Nat)

/-- The shortest decimal within the bounds; seventeen digits are always enough. The coarsest grid
lies above the leading digit, since the value may round up to a power of ten. -/
def shortest (r : Rounding) : Decimal :=
  let tries := (List.range 18).map fun (k : Nat) => r.magnitude + 1 - k
  ((tries.findSome? fun p => (r.inUnits p).nearest?.map fun n => Decimal.mk n p)).getD ⟨0, 0⟩

end Rounding

def Decimal.positional (d : Decimal) : String :=
  let ds := decimal d.digits
  if 0 ≤ d.exponent then String.ofList (ds ++ List.replicate d.exponent.toNat '0')
  else
    let places := (-d.exponent).toNat
    let padded := List.replicate (places + 1 - ds.length) '0' ++ ds
    let whole := padded.length - places
    String.ofList (padded.take whole ++ '.' :: padded.drop whole)

def ofParts (negative : Bool) (exponent fraction : Nat) : String :=
  let sign := if negative then "-" else ""
  if exponent = 2047 then if fraction = 0 then sign ++ "inf" else "NaN"
  else if exponent = 0 ∧ fraction = 0 then sign ++ "0"
  else
    let rounding :=
      if exponent = 0 then Rounding.of fraction (-1074) false
      else Rounding.of (Nat.pow 2 52 + fraction) ((exponent : Int) - 1075)
        (fraction = 0 && decide (1 < exponent))
    sign ++ rounding.shortest.positional

def ofFloat (x : Float) : String :=
  let bits := x.toBits.toNat
  ofParts (Nat.pow 2 63 ≤ bits) (bits / Nat.pow 2 52 % 2048) (bits % Nat.pow 2 52)

end DaoLedger.Text
