/-!
Channels for one value. The sender ends with a value or without one, whatever comes first;
everything after that changes nothing.
-/
namespace DaoLedger

inductive Slot (α : Type) where
  | awaiting
  | holding (a : α)
  | finished
deriving DecidableEq, Inhabited, Repr

structure OneShot (α : Type) where
  slot : Slot α
  heard : Bool
deriving DecidableEq, Inhabited, Repr

inductive Receipt (α : Type) where
  | value (a : α)
  | empty
  | closed
  | dropped
deriving DecidableEq, Inhabited, Repr

namespace OneShot

variable {α : Type}

def new : OneShot α := ⟨.awaiting, true⟩

def isDone (c : OneShot α) : Bool :=
  match c.slot with
  | .awaiting => false
  | _ => true

/-- Sends the value unless the channel is done, and says whether it did. A value for which
there is no receiver counts as sent. -/
def complete (c : OneShot α) (a : α) : OneShot α × Bool :=
  match c.slot with
  | .awaiting => (⟨if c.heard then .holding a else .finished, c.heard⟩, true)
  | _ => (c, false)

def cancel (c : OneShot α) : OneShot α × Bool :=
  match c.slot with
  | .awaiting => ({ c with slot := .finished }, true)
  | _ => (c, false)

def dropReceiver (c : OneShot α) : OneShot α := { c with heard := false }

def receive (c : OneShot α) : OneShot α × Receipt α :=
  if c.heard then
    match c.slot with
    | .awaiting => (c, .empty)
    | .holding a => ({ c with slot := .finished }, .value a)
    | .finished => (c, .closed)
  else (c, .dropped)

end OneShot

end DaoLedger
