import DaoLedger.Text.Digits
/-!
Socket addresses, read and written in their usual texts. An IPv6 address is written with its first
longest run of two or more zero groups left out, and one that maps an IPv4 address shows it.
-/
namespace DaoLedger

structure Ip4 where
  (a b c d : UInt8)
deriving DecidableEq, Inhabited, Repr

inductive Address where
  | v4 (ip : Ip4) (port : UInt16)
  | v6 (groups : List UInt16) (scope : UInt32) (port : UInt16)
deriving DecidableEq, Inhabited, Repr

namespace Address

/-! ### Writing -/

def ip4Text (ip : Ip4) : String := s!"{ip.a}.{ip.b}.{ip.c}.{ip.d}"

def hexText (n : UInt16) : String := String.ofList (Text.hexDigits n.toNat)

def groupsText (groups : List UInt16) : String := ":".intercalate (groups.map hexText)

/-- The start and length of the first longest run of zeros, after those seen before `i`. -/
def zeroRun (i start length bestStart best : Nat) : List UInt16 → Nat × Nat
  | [] => (bestStart, best)
  | g :: groups =>
    if g = 0 then
      let start := if length = 0 then i else start
      if best < length + 1 then zeroRun (i + 1) start (length + 1) start (length + 1) groups
      else zeroRun (i + 1) start (length + 1) bestStart best groups
    else zeroRun (i + 1) 0 0 bestStart best groups

def ip6Text (groups : List UInt16) : String :=
  match groups with
  | [0, 0, 0, 0, 0, 0xffff, x, y] =>
    "::ffff:" ++ ip4Text ⟨(x >>> 8).toUInt8, x.toUInt8, (y >>> 8).toUInt8, y.toUInt8⟩
  | _ =>
    let (start, length) := zeroRun 0 0 0 0 0 groups
    if 1 < length then
      groupsText (groups.take start) ++ "::" ++ groupsText (groups.drop (start + length))
    else groupsText groups

protected def toString : Address → String
  | .v4 ip port => ip4Text ip ++ ":" ++ toString port
  | .v6 groups scope port =>
    let scopeText := if scope = 0 then "" else "%" ++ toString scope
    "[" ++ ip6Text groups ++ scopeText ++ "]:" ++ toString port

instance : ToString Address := ⟨Address.toString⟩

/-! ### Reading -/

abbrev Scan := StateT (List Char) Option

def isDecimal (c : Char) : Bool := (Text.decimalValue? c).isSome

def isHex (c : Char) : Bool := (Text.hexValue? c).isSome

def number (isDigit : Char → Bool) (base most bound : Nat) : Scan Nat := fun cs =>
  let digits := cs.takeWhile isDigit
  let n := digits.foldl (fun n c => base * n + (Text.hexValue? c).getD 0) 0
  if digits.isEmpty || most < digits.length || bound ≤ n then none
  else some (n, cs.dropWhile isDigit)

def char (c : Char) : Scan Unit
  | [] => none
  | d :: cs => if d = c then some ((), cs) else none

def octet : Scan UInt8 := fun cs =>
  match cs with
  | '0' :: c :: _ =>
    if isDecimal c then none else (number isDecimal 10 3 256 cs).map fun (n, r) => (UInt8.ofNat n, r)
  | cs => (number isDecimal 10 3 256 cs).map fun (n, r) => (UInt8.ofNat n, r)

def ip4 : Scan Ip4 := do
  let a ← octet
  char '.'
  let b ← octet
  char '.'
  let c ← octet
  char '.'
  return ⟨a, b, c, ← octet⟩

def port : Scan UInt16 := do
  char ':'
  return UInt16.ofNat (← number isDecimal 10 1000000 65536)

def separated {α : Type} (first : Bool) (p : Scan α) : Scan α := do
  if !first then char ':'
  p

/-- Up to `limit` groups, and whether the last two came from an IPv4 address; the groups seen
before are given. -/
def groupsUpTo (seen : List UInt16) : Nat → Scan (List UInt16 × Bool)
  | 0 => return (seen, false)
  | limit + 1 => fun cs =>
    let embedded := if limit = 0 then none else separated seen.isEmpty ip4 cs
    match embedded with
    | some (ip, rest) =>
      let pair (x y : UInt8) : UInt16 := UInt16.ofNat (256 * x.toNat + y.toNat)
      some ((seen ++ [pair ip.a ip.b, pair ip.c ip.d], true), rest)
    | none =>
      match separated seen.isEmpty (number isHex 16 4 65536) cs with
      | some (n, rest) => groupsUpTo (seen ++ [UInt16.ofNat n]) limit rest
      | none => some ((seen, false), cs)

def ip6 : Scan (List UInt16) := do
  let (head, hasIp4) ← groupsUpTo [] 8
  if head.length = 8 then return head
  else if hasIp4 then fun _ => none
  else
    char ':'
    char ':'
    let (tail, _) ← groupsUpTo [] (7 - head.length)
    return head ++ List.replicate (8 - head.length - tail.length) 0 ++ tail

def scope : Scan UInt32 := do
  char '%'
  return UInt32.ofNat (← number isDecimal 10 1000000 UInt32.size)

def scan : Scan Address := fun cs =>
  match cs with
  | '[' :: rest => rest |> show Scan Address from do
    let groups ← ip6
    let zone ← fun cs => match scope cs with
      | some (n, rest) => some (n, rest)
      | none => some (0, cs)
    char ']'
    return .v6 groups zone (← port)
  | cs => cs |> show Scan Address from do
    let ip ← ip4
    return .v4 ip (← port)

def ofString? (s : String) : Option Address :=
  match scan s.toList with
  | some (address, []) => some address
  | _ => none

end Address

end DaoLedger
