import DaoLedger.Toml.Basic
import DaoLedger.Text.Digits
/-!
TOML numbers, dates and times.
-/
namespace DaoLedger.Toml

def digitRun (p : Char → Bool) : List Char → List Char × List Char
  | [] => ([], [])
  | [c] => if p c then ([c], []) else ([], [c])
  | c :: d :: cs =>
    if p c then
      let (run, rest) := digitRun p (d :: cs)
      (c :: run, rest)
    else if c == '_' && p d then
      let (run, rest) := digitRun p cs
      (d :: run, rest)
    else ([], c :: d :: cs)

def digits (p : Char → Bool) : Scan (List Char)
  | [] => none
  | c :: cs => if p c then some (digitRun p (c :: cs)) else none

def sign : Scan (List Char) := do
  if ← Scan.accept '-' then return ['-']
  else
    let _ ← Scan.accept '+'
    return []

def whole : Scan (List Char)
  | '0' :: cs => some (['0'], cs)
  | cs => digits isDigit cs

def inRange (n : Int) : Option Toml :=
  if -0x8000000000000000 ≤ n ∧ n < 0x8000000000000000 then some (.integer n) else none

def numeral (base : Nat) (ds : List Char) : Nat :=
  ds.foldl (fun n c => base * n + (DaoLedger.Text.hexValue? c).getD 0) 0

def based (base : Nat) (p : Char → Bool) : Scan Toml := do
  let ds ← digits p
  StateT.lift (inRange (numeral base ds))

def Scan.integer : Scan Toml
  | '0' :: 'x' :: cs => based 16 (fun c => (DaoLedger.Text.hexValue? c).isSome) cs
  | '0' :: 'o' :: cs => based 8 (fun c => '0' ≤ c && c ≤ '7') cs
  | '0' :: 'b' :: cs => based 2 (fun c => c == '0' || c == '1') cs
  | cs => cs |> show Scan Toml from do
    let minus ← sign
    let n := numeral 10 (← whole)
    StateT.lift (inRange (if minus.isEmpty then (n : Int) else -n))

def exponent : Scan (List Char) := do
  let _ ← Scan.one fun c => c == 'e' || c == 'E'
  let minus ← sign
  return 'e' :: minus ++ (← digits isDigit)

def fraction : Scan (List Char) := do
  Scan.char '.'
  return '.' :: (← digits isDigit)

def overflows (units : Nat) (power : Int) : Bool :=
  let size := (DaoLedger.Text.decimal units).length + power
  units ≠ 0 && (320 < size ||
    (300 < size && (Nat.pow 2 1024 - Nat.pow 2 970) * Nat.pow 10 (-power).toNat
      ≤ units * Nat.pow 10 power.toNat))

def powerOf : List Char → Int
  | 'e' :: '-' :: ds => -(numeral 10 ds : Int)
  | 'e' :: ds => numeral 10 ds
  | _ => 0

def Scan.float : Scan Toml := do
  let minus ← sign
  let n ← whole
  let f ← Scan.optional fraction
  let e ← if f.isSome then Scan.optional exponent else some <$> exponent
  let parts := (f.getD []).drop 1
  let power := powerOf (e.getD [])
  if minus.isEmpty && overflows (numeral 10 (n ++ parts)) (power - parts.length) then Scan.fail
  else return .float (String.ofList (minus ++ n ++ f.getD [] ++ e.getD []))

def word (cs : List Char) : Scan Unit := cs.forM Scan.char

def specialFloat : Scan Toml := do
  let minus ← sign
  if (← Scan.peek) = some 'i' then
    word ['i', 'n', 'f']
    return .float (String.ofList (minus ++ ['i', 'n', 'f']))
  else
    word ['n', 'a', 'n']
    return .float (String.ofList (minus ++ ['n', 'a', 'n']))

/-! ### Dates and times -/

def fixed : Nat → Scan (List Char)
  | 0 => return []
  | n + 1 => do
    let c ← Scan.one isDigit
    return c :: (← fixed n)

def two (low high : Nat) : Scan (List Char) := do
  let ds ← fixed 2
  if low ≤ numeral 10 ds ∧ numeral 10 ds ≤ high then return ds else Scan.fail

def isLeap (year : Nat) : Bool := year % 4 == 0 && (year % 100 != 0 || year % 400 == 0)

def daysIn (year month : Nat) : Nat :=
  match month with
  | 2 => if isLeap year then 29 else 28
  | 4 | 6 | 9 | 11 => 30
  | _ => 31

def date : Scan (List Char) := do
  let year ← fixed 4
  Scan.char '-'
  let month ← two 1 12
  Scan.char '-'
  let day ← two 1 (daysIn (numeral 10 year) (numeral 10 month))
  return year ++ '-' :: month ++ '-' :: day

def time : Scan (List Char) := do
  let hour ← two 0 23
  Scan.char ':'
  let minute ← two 0 59
  Scan.char ':'
  let second ← two 0 60
  let parts ← Scan.optional do
    Scan.char '.'
    let c ← Scan.one isDigit
    return '.' :: c :: (← Scan.takeWhile isDigit)
  return hour ++ ':' :: minute ++ ':' :: second ++ parts.getD []

def zone : Scan (List Char) := do
  let c ← Scan.one fun c => c ∈ ['Z', 'z', '+', '-']
  if c == 'Z' || c == 'z' then return ['Z']
  else
    let hour ← two 0 23
    Scan.char ':'
    return c :: hour ++ ':' :: (← two 0 59)

def dayTime : Scan (List Char) := do
  let _ ← Scan.one fun c => c ∈ ['T', 't', ' ']
  let t ← time
  let z ← Scan.optional zone
  return 'T' :: t ++ z.getD []

def Scan.datetime : Scan Toml := do
  match ← Scan.optional date with
  | some d =>
    let t ← Scan.optional dayTime
    return .datetime (String.ofList (d ++ t.getD []))
  | none => return .datetime (String.ofList (← time))

/-- Dates before floats, floats before integers: each begins like the next. -/
def number : Scan Toml := fun cs =>
  (Scan.datetime cs).or ((Scan.float cs).or ((specialFloat cs).or (Scan.integer cs)))

end DaoLedger.Toml
