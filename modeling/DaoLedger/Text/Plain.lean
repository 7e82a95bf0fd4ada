/-!
Plain text: what is written of a text where no terminal reads it. Control characters and the
sequences that control a terminal are left out; blank space and line ends stay.
-/
namespace DaoLedger.Text

inductive Sequence where
  | none
  | escape
  | escapeIntermediate
  | control
  | deviceEntry
  | deviceParameter
  | deviceIntermediate
  /-- A string that no other character ends than another escape, a cancel or the terminator. -/
  | controlString
  | systemCommand
deriving DecidableEq, Inhabited, Repr

namespace Sequence

def afterEscape (n : Nat) : Sequence :=
  if n < 0x20 ∨ n = 0x7f then .escape
  else if n < 0x30 then .escapeIntermediate
  else if n = 0x50 then .deviceEntry
  else if n = 0x5b then .control
  else if n = 0x5d then .systemCommand
  else if n ∈ [0x58, 0x5e, 0x5f] then .controlString
  else .none

def next (q : Sequence) (n : Nat) : Sequence :=
  if n = 0x18 ∨ n = 0x1a then .none
  else if n = 0x1b then .escape
  else
    match q with
    | .none => .none
    | .escape => afterEscape n
    | .escapeIntermediate => if 0x30 ≤ n ∧ n < 0x7f then .none else q
    | .control => if 0x40 ≤ n ∧ n < 0x7f then .none else q
    | .deviceEntry =>
      if n < 0x20 ∨ n = 0x7f then q
      else if n < 0x30 then .deviceIntermediate
      else if n < 0x40 then .deviceParameter
      else .controlString
    | .deviceParameter =>
      if n < 0x20 ∨ n = 0x7f ∨ (0x30 ≤ n ∧ n < 0x3c) then q
      else if n < 0x30 then .deviceIntermediate
      else .controlString
    | .deviceIntermediate => if 0x30 ≤ n ∧ n < 0x7f then .controlString else q
    | .controlString => q
    | .systemCommand => if n = 0x07 then .none else q

def letsBlanksThrough : Sequence → Bool
  | .none | .escape | .escapeIntermediate | .control => true
  | _ => false

end Sequence

def isBlankControl (n : Nat) : Bool := n ∈ [0x09, 0x0a, 0x0c, 0x0d]

def holdsTerminator (n : Nat) : Bool :=
  n % 64 = 28 || (0x800 ≤ n && n / 64 % 64 = 28) || (0x10000 ≤ n && n / 4096 % 64 = 28)

def goesOn (n : Nat) : Bool := (0x20 ≤ n && n ≠ 0x7f) || isBlankControl n

def begins (q : Sequence) (n : Nat) : Bool :=
  if isBlankControl n then q.letsBlanksThrough else q = .none && 0x20 ≤ n && n ≠ 0x7f

def skipped (q : Sequence) (n : Nat) : Sequence :=
  if n < 0x80 then q.next n
  else if q = .controlString && holdsTerminator n then .none
  else q

/-- Inside a run everything is written up to the next control character, even in the middle of a
sequence. -/
def plainFrom (q : Sequence) (inRun : Bool) : List Char → List Char
  | [] => []
  | c :: cs =>
    if (inRun && goesOn c.toNat) || begins q c.toNat then
      c :: plainFrom (if c.toNat < 0x80 then q else .none) true cs
    else plainFrom (skipped q c.toNat) false cs

def plain (s : String) : String := String.ofList (plainFrom .none false s.toList)

end DaoLedger.Text
