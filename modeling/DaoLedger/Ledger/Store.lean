import DaoLedger.Ledger.Query
import DaoLedger.Ledger.Listeners
/-!
Committing blocks as a whole. An attempt that fails, or that does not open exactly one block,
leaves no block behind and reaches no listener. One that has no end leaves nothing to be seen: the
ledger stands as it was before it, and nobody gets to it any more.
-/
namespace DaoLedger

namespace Ledger

/-- Makes changes in order up to the first that fails; what came before it is kept. None if one of
them has no end. -/
def attempt {ε : Type} (l : Ledger) :
    List (Ledger → Result ε Ledger) → Option (Ledger × Except ε Unit)
  | [] => some (l, .ok ())
  | change :: changes =>
    match change l with
    | .never => none
    | .error e => some (l, .error e)
    | .ok l => l.attempt changes

def removeTips (l : Ledger) : Nat → Ledger
  | 0 => l
  | n + 1 =>
    match l.removeTip with
    | none => l
    | some (_, l) => l.removeTips n

def cutTo (l : Ledger) (count : Nat) : Ledger := l.removeTips (l.chain.length - count)

/-- What is kept of an attempt that began with `count` blocks. -/
def settle {ε : Type} (noOpenBlock : ε) (count : Nat) (after : Ledger) :
    Except ε Unit → Ledger × Except ε Block
  | .error e => (after.cutTo count, .error e)
  | .ok () =>
    match after.chain with
    | tip :: older =>
      if older.length = count then (after, .ok tip) else (after.cutTo count, .error noOpenBlock)
    | [] => (after, .error noOpenBlock)

end Ledger

structure Store (α : Type) where
  ledger : Ledger
  listeners : Listeners α

/-- A committed block together with the listeners that are called with it, in order. -/
structure Committed (α : Type) where
  block : Block
  called : List α

namespace Store

variable {α ε : Type}

def new (genesis : Genesis) : Store α := ⟨.new genesis, .empty⟩

def commit (s : Store α) (noOpenBlock : ε)
    (attempt : Ledger → Option (Ledger × Except ε Unit)) :
    Store α × Result ε (Committed α) :=
  match attempt s.ledger with
  | none => (s, .never)
  | some (after, outcome) =>
    let (ledger, result) := Ledger.settle noOpenBlock s.ledger.chain.length after outcome
    ({ s with ledger },
      (Result.ofExcept result).map fun block => ⟨block, s.listeners.entries.map (·.2)⟩)

end Store

end DaoLedger
