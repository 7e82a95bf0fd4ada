/-!
What becomes of an operation that may have no end.
-/
namespace DaoLedger

/-- A result, an error, or no answer at any time. -/
inductive Result (ε α : Type) where
  | ok (a : α)
  | error (e : ε)
  | never
deriving DecidableEq, Inhabited, Repr

namespace Result
variable {ε ε' α β : Type}

def ofExcept : Except ε α → Result ε α
  | .ok a => .ok a
  | .error e => .error e

def map (f : α → β) : Result ε α → Result ε β
  | .ok a => .ok (f a)
  | .error e => .error e
  | .never => .never

@[simp] theorem map_ok (f : α → β) (a : α) : (ok a : Result ε α).map f = .ok (f a) := rfl

@[simp] theorem map_error (f : α → β) (e : ε) : (error e : Result ε α).map f = .error e := rfl

@[simp] theorem map_never (f : α → β) : (never : Result ε α).map f = .never := rfl

theorem map_map {γ : Type} (f : α → β) (g : β → γ) (r : Result ε α) :
    (r.map f).map g = r.map fun a => g (f a) := by
  cases r <;> rfl

def mapError (f : ε → ε') : Result ε α → Result ε' α
  | .ok a => .ok a
  | .error e => .error (f e)
  | .never => .never

def toOption : Result ε α → Option α
  | .ok a => some a
  | .error _ | .never => none

def isNever : Result ε α → Bool
  | .never => true
  | _ => false

variable {a : α} {b : β} {r : Result ε α}

theorem map_eq_ok {f : α → β} : r.map f = .ok b ↔ ∃ a, r = .ok a ∧ f a = b := by
  cases r <;> simp [map]

theorem toOption_eq_some : r.toOption = some a ↔ r = .ok a := by
  cases r <;> simp [toOption]

theorem isNever_eq_true : r.isNever ↔ r = .never := by
  cases r <;> simp [isNever]

theorem mapError_eq_ok {f : ε → ε'} : r.mapError f = .ok a ↔ r = .ok a := by
  cases r <;> simp [mapError]

theorem mapError_eq_never {f : ε → ε'} : r.mapError f = .never ↔ r = .never := by
  cases r <;> simp [mapError]

theorem toOption_mapError (f : ε → ε') (r : Result ε α) :
    (r.mapError f).toOption = r.toOption := by
  cases r <;> rfl

theorem isNever_mapError (f : ε → ε') (r : Result ε α) : (r.mapError f).isNever = r.isNever := by
  cases r <;> rfl

end Result

end DaoLedger
