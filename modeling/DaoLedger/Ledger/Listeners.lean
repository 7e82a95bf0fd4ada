import DaoLedger.Chain.Block
/-!
Listeners for committed blocks. Each subscription has its own number; listeners are called in the
order of subscription, and only those subscribed before the call began.
-/
namespace DaoLedger

structure Listeners (α : Type) where
  nextId : Nat
  entries : List (Nat × α)

namespace Listeners

variable {α : Type}

def empty : Listeners α := ⟨0, []⟩

def subscribe (r : Listeners α) (listener : α) : Listeners α × Nat :=
  (⟨r.nextId + 1, r.entries ++ [(r.nextId, listener)]⟩, r.nextId)

def unsubscribe (r : Listeners α) (id : Nat) : Listeners α :=
  { r with entries := r.entries.filter fun e => e.1 ≠ id }

def size (r : Listeners α) : Nat := r.entries.length

/-- Calls each listener once. A listener may change the registry and whatever else is at hand;
`hear` says how, from the number of its subscription and from itself. -/
def notify {σ : Type} (r : Listeners α) (hear : Nat → α → Block → σ → σ) (block : Block) (s : σ) :
    σ :=
  r.entries.foldl (fun s e => hear e.1 e.2 block s) s

end Listeners

/-! ### Subscriptions -/

/-- Subscriptions kept under names. Dropping one ends it; a detached one goes on, and nobody can
end it any more. -/
structure Subscriptions where
  numbers : List (String × Nat)
deriving DecidableEq, Inhabited, Repr

namespace Subscriptions

variable {α : Type}

def has (s : Subscriptions) (name : String) : Bool := (s.numbers.lookup name).isSome

def detach (s : Subscriptions) (name : String) : Subscriptions :=
  ⟨s.numbers.filter (·.1 ≠ name)⟩

def drop (s : Subscriptions) (r : Listeners α) (name : String) : Subscriptions × Listeners α :=
  (s.detach name, match s.numbers.lookup name with
    | some number => r.unsubscribe number
    | none => r)

/-- What was subscribed under the name before is dropped once the new subscription is there. -/
def subscribe (s : Subscriptions) (r : Listeners α) (name : String) (listener : α) :
    Subscriptions × Listeners α :=
  let (r, number) := r.subscribe listener
  let (s, r) := s.drop r name
  (⟨(name, number) :: s.numbers⟩, r)

end Subscriptions

end DaoLedger
