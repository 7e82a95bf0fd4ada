import DaoLedger.Sync.OneShot
/-!
What comes through a channel for one value. Main statements: of the ends that a channel is given
the first stays, its value is taken at most once, and what the receiver finds is known from the end
and from what was taken.
-/
namespace DaoLedger
variable {α : Type} {a : α} {ending : Option (Option α)} {taken : List α}

namespace Receipt

def value? : Receipt α → Option α
  | .value a => some a
  | _ => none

/-- What there is to find in a channel that was ended, by a value or without one, or not yet, once
some values were taken. -/
def of (ending : Option (Option α)) (taken : List α) : Receipt α :=
  match ending, taken with
  | none, _ => .empty
  | some (some a), [] => .value a
  | _, _ => .closed

end Receipt

def takenFrom (taken : List (Nat × α)) (number : Nat) : List α :=
  (taken.filter (·.1 = number)).map (·.2)

theorem takenFrom_append (taken : List (Nat × α)) (n number : Nat) (values : List α) :
    takenFrom (taken ++ values.map (n, ·)) number =
      takenFrom taken number ++ if n = number then values else [] := by
  rw [takenFrom, takenFrom, List.filter_append, List.map_append, List.filter_map]
  by_cases hn : n = number
  · simp [hn, Function.comp_def]
  · simp [hn, Function.comp_def]

namespace OneShot
variable {c : OneShot α}

@[simp] theorem heard_complete (c : OneShot α) (a : α) : (c.complete a).1.heard = c.heard := by
  unfold complete
  split <;> rfl

@[simp] theorem heard_cancel (c : OneShot α) : c.cancel.1.heard = c.heard := by
  unfold cancel
  split <;> rfl

@[simp] theorem heard_receive (c : OneShot α) : c.receive.1.heard = c.heard := by
  unfold receive
  split
  · split <;> rfl
  · rfl

@[simp] theorem heard_dropReceiver (c : OneShot α) : c.dropReceiver.heard = false := rfl

theorem receipt_of_dropped (hc : c.heard = false) : c.receive.2 = .dropped := by
  rw [receive, hc]
  rfl

/-- How a channel stands after its end, if it had one, and after some values were taken. A value
without a receiver is lost. -/
inductive Stands : Option (Option α) → List α → OneShot α → Prop where
  | awaiting (heard : Bool) : Stands none [] ⟨.awaiting, heard⟩
  | closed (heard : Bool) : Stands (some none) [] ⟨.finished, heard⟩
  | holding (a : α) (heard : Bool) : Stands (some (some a)) [] ⟨.holding a, heard⟩
  | lost (a : α) : Stands (some (some a)) [] ⟨.finished, false⟩
  | taken (a : α) (heard : Bool) : Stands (some (some a)) [a] ⟨.finished, heard⟩

namespace Stands

theorem new : Stands none [] (OneShot.new : OneShot α) := .awaiting true

theorem complete (h : Stands ending taken c) (a : α) :
    Stands (ending.or (some (some a))) taken (c.complete a).1 := by
  cases h with
  | awaiting heard =>
    cases heard with
    | false => exact .lost a
    | true => exact .holding a true
  | closed heard => exact .closed heard
  | holding b heard => exact .holding b heard
  | lost b => exact .lost b
  | taken b heard => exact .taken b heard

theorem cancel (h : Stands ending taken c) : Stands (ending.or (some none)) taken c.cancel.1 := by
  cases h with
  | awaiting heard => exact .closed heard
  | closed heard => exact .closed heard
  | holding b heard => exact .holding b heard
  | lost b => exact .lost b
  | taken b heard => exact .taken b heard

theorem receive (h : Stands ending taken c) :
    Stands ending (taken ++ c.receive.2.value?.toList) c.receive.1 := by
  cases h with
  | awaiting heard => cases heard <;> exact .awaiting _
  | closed heard => cases heard <;> exact .closed _
  | holding b heard =>
    cases heard with
    | false => exact .holding b false
    | true => exact .taken b true
  | lost b => exact .lost b
  | taken b heard => cases heard <;> exact .taken b _

theorem dropReceiver (h : Stands ending taken c) : Stands ending taken c.dropReceiver := by
  cases h with
  | awaiting heard => exact .awaiting false
  | closed heard => exact .closed false
  | holding b heard => exact .holding b false
  | lost b => exact .lost b
  | taken b heard => exact .taken b false

theorem isDone_eq (h : Stands ending taken c) : c.isDone = ending.isSome := by
  cases h <;> rfl

theorem length_taken_le (h : Stands ending taken c) : taken.length ≤ 1 := by
  cases h <;> simp

theorem taken_eq_nil (h : Stands none taken c) : taken = [] := by
  cases h
  rfl

theorem ending_of_mem_taken (h : Stands ending taken c) (ha : a ∈ taken) :
    ending = some (some a) := by
  cases h with
  | taken b heard => rw [List.mem_singleton.1 ha]
  | _ => cases ha

theorem receipt_of_heard (h : Stands ending taken c) (hc : c.heard = true) :
    c.receive.2 = .of ending taken := by
  cases h <;> cases hc <;> rfl

end Stands
end OneShot
end DaoLedger
