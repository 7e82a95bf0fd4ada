import Mathlib.Data.List.Nodup
import DaoLedger.Ledger.Store
import DaoLedger.Proofs.Stored
/-!
Listening to a store. Main statement: a listener is called with just the blocks that are committed
between its subscription and the end of it, once with each, in the order of the commits.
-/
namespace DaoLedger

inductive Handling (α : Type) where
  | subscribe (name : String) (listener : α)
  | drop (name : String)
  | detach (name : String)

inductive Occurrence (α : Type) where
  | subscribed (number : Nat) (listener : α)
  | ended (number : Nat)
  | committed (block : Block)

structure Notice (α : Type) where
  number : Nat
  listener : α
  block : Block
  found : Ledger

structure Listening (α : Type) where
  store : Store α
  subscriptions : Subscriptions
  history : List (Occurrence α)
  notices : List (Notice α)

namespace Occurrence
variable {α : Type}

def subscribed? : Occurrence α → Option (Nat × α)
  | .subscribed number listener => some (number, listener)
  | _ => none

def ended? : Occurrence α → Option Nat
  | .ended number => some number
  | _ => none

def committed? : Occurrence α → Option Block
  | .committed block => some block
  | _ => none

/-- Who is subscribed after it, if those were before it. -/
def after (entries : List (Nat × α)) : Occurrence α → List (Nat × α)
  | .subscribed number listener => entries ++ [(number, listener)]
  | .ended number => entries.filter (·.1 ≠ number)
  | .committed _ => entries

/-- Who has to be called with what, if those are subscribed when it begins. -/
def due (entries : List (Nat × α)) : List (Occurrence α) → List ((Nat × α) × Block)
  | [] => []
  | .subscribed number listener :: os => due (entries ++ [(number, listener)]) os
  | .ended number :: os => due (entries.filter (·.1 ≠ number)) os
  | .committed block :: os => entries.map (·, block) ++ due entries os

end Occurrence

namespace Listening
variable {α ε : Type} {w w' w'' : Listening α}

def new (genesis : Genesis) : Listening α := ⟨⟨.new genesis, .empty⟩, ⟨[]⟩, [], []⟩

def ending (w : Listening α) (name : String) : List (Occurrence α) :=
  (w.subscriptions.numbers.lookup name).toList.map .ended

def handle (w : Listening α) : Handling α → Listening α
  | .subscribe name listener =>
    let (subscriptions, listeners) := w.subscriptions.subscribe w.store.listeners name listener
    { w with
      store.listeners := listeners
      subscriptions
      history := w.history ++ .subscribed w.store.listeners.nextId listener :: w.ending name }
  | .drop name =>
    let (subscriptions, listeners) := w.subscriptions.drop w.store.listeners name
    { w with store.listeners := listeners, subscriptions, history := w.history ++ w.ending name }
  | .detach name => { w with subscriptions := w.subscriptions.detach name }

/-- What listeners do to the subscriptions when they are called. They leave the ledger alone. -/
abbrev Conduct (α : Type) := Nat → α → Block → Listening α → List (Handling α)

def hear (conduct : Conduct α) (number : Nat) (listener : α) (block : Block) (w : Listening α) :
    Listening α :=
  (conduct number listener block w).foldl handle
    { w with notices := w.notices ++ [⟨number, listener, block, w.store.ledger⟩] }

inductive Step (α ε : Type) where
  | handle (h : Handling α)
  | apply (noOpenBlock : ε) (attempt : Ledger → Option (Ledger × Except ε Unit))
      (conduct : Conduct α)
  | removeTip

def step (w : Listening α) : Step α ε → Listening α
  | .handle h => w.handle h
  | .apply noOpenBlock attempt conduct =>
    match w.store.commit noOpenBlock attempt with
    | (store, .error _) | (store, .never) => { w with store }
    | (store, .ok c) => store.listeners.notify (hear conduct) c.block
        { w with store, history := w.history ++ [.committed c.block] }
  | .removeTip =>
    match w.store.ledger.removeTip with
    | none => w
    | some (_, ledger) => { w with store.ledger := ledger }

def run (genesis : Genesis) (steps : List (Step α ε)) : Listening α :=
  steps.foldl step (.new genesis)

def heard (w : Listening α) (number : Nat) : List (α × Block) :=
  (w.notices.filter (·.number = number)).map fun notice => (notice.listener, notice.block)

end Listening

/-! ### Histories -/

namespace Occurrence
variable {α : Type} {entries : List (Nat × α)} {number : Nat} {listener : α}
  {os : List (Occurrence α)}

theorem due_append (entries : List (Nat × α)) (os os' : List (Occurrence α)) :
    due entries (os ++ os') = due entries os ++ due (os.foldl after entries) os' := by
  induction os generalizing entries with
  | nil => rfl
  | cons o os ih =>
    cases o with
    | committed block =>
      rw [List.cons_append, due, due, ih, List.append_assoc]
      rfl
    | _ => exact ih _

theorem due_of_quiet (h : os.filterMap committed? = []) (entries : List (Nat × α)) :
    due entries os = [] := by
  induction os generalizing entries with
  | nil => rfl
  | cons o os ih =>
    cases o with
    | committed block => cases h
    | _ => exact ih h _

theorem sublist_foldl_after (entries : List (Nat × α)) (os : List (Occurrence α)) :
    (os.foldl after entries).Sublist (entries ++ os.filterMap subscribed?) := by
  induction os generalizing entries with
  | nil => exact (List.append_nil entries).symm ▸ List.Sublist.refl _
  | cons o os ih =>
    cases o with
    | subscribed number listener =>
      have h := ih (entries ++ [(number, listener)])
      rw [List.append_assoc] at h
      exact h
    | ended number => exact (ih _).trans (List.filter_sublist.append_right _)
    | committed block => exact ih _

theorem due_of_absent (hentries : number ∉ entries.map (·.1))
    (hos : number ∉ (os.filterMap subscribed?).map (·.1)) :
    (due entries os).filter (·.1.1 = number) = [] := by
  induction os generalizing entries with
  | nil => rfl
  | cons o os ih =>
    cases o with
    | subscribed other listener =>
      obtain ⟨hne, hos⟩ := not_or.1 (hos ∘ List.mem_cons.2)
      refine ih (fun h => ?_) hos
      rcases List.mem_append.1 (List.map_append ▸ h) with h | h
      · exact hentries h
      · exact hne (List.mem_singleton.1 h)
    | ended other =>
      exact ih (fun h => hentries ((List.filter_sublist.map _).subset h)) hos
    | committed block =>
      rw [due, List.filter_append, ih hentries hos, List.append_nil, List.filter_eq_nil_iff]
      intro call hcall hnumber
      obtain ⟨e, he, rfl⟩ := List.mem_map.1 hcall
      exact hentries (List.mem_map.2 ⟨e, he, decide_eq_true_iff.1 hnumber⟩)

/-- The induction follows the subscribers, who stay distinct since no number is given twice. -/
theorem due_of_present (hentry : (number, listener) ∈ entries)
    (hd : ((entries ++ os.filterMap subscribed?).map (·.1)).Nodup) :
    ((due entries os).filter (·.1.1 = number)).map (fun call => (call.1.2, call.2)) =
      ((os.takeWhile (·.ended? ≠ some number)).filterMap committed?).map (listener, ·) := by
  induction os generalizing entries with
  | nil => rfl
  | cons o os ih =>
    cases o with
    | subscribed other listener =>
      refine ih (List.mem_append_left _ hentry) ?_
      rw [List.append_assoc]
      exact hd
    | ended other =>
      rw [due]
      by_cases he : other = number
      · subst he
        have hfresh : other ∉ (os.filterMap subscribed?).map (·.1) := by
          rw [List.map_append] at hd
          exact List.disjoint_of_nodup_append hd (List.mem_map_of_mem hentry)
        have hgone : other ∉ (entries.filter (·.1 ≠ other)).map (·.1) := by
          simp
        rw [due_of_absent hgone hfresh, List.takeWhile_cons_of_neg (by simp [ended?])]
        rfl
      · have hstays : (number, listener) ∈ entries.filter (·.1 ≠ other) :=
          List.mem_filter.2 ⟨hentry, decide_eq_true (Ne.symm he)⟩
        rw [ih hstays (hd.sublist ((List.filter_sublist.append_right _).map _)),
          List.takeWhile_cons_of_pos (by simp [ended?, he])]
        rfl
    | committed block =>
      have hone : (entries.map (·, block)).filter (·.1.1 = number) =
          [((number, listener), block)] := by
        have hentries : (entries.map (·.1)).Nodup := by
          rw [List.map_append] at hd
          exact (List.nodup_append'.1 hd).1
        rw [List.filter_map]
        exact congrArg (List.map (·, block)) (filter_eq_singleton_of_nodup hentries hentry)
      rw [due, List.filter_append, hone, List.map_append, ih hentry hd,
        List.takeWhile_cons_of_pos (by simp [ended?])]
      rfl

end Occurrence

namespace Listening
open Occurrence
variable {α ε : Type} {w w' w'' : Listening α} {notices notices' : List (Notice α)}

/-! ### Subscriptions -/

theorem entries_drop (s : Subscriptions) (r : Listeners α) (name : String) :
    (s.drop r name).2.entries = r.entries.filter fun e => s.numbers.lookup name ≠ some e.1 := by
  rw [Subscriptions.drop]
  cases s.numbers.lookup name with
  | none => exact (List.filter_eq_self.2 fun e _ => decide_eq_true nofun).symm
  | some number =>
    refine List.filter_congr fun e _ => ?_
    simp [eq_comm]

theorem nextId_drop (s : Subscriptions) (r : Listeners α) (name : String) :
    (s.drop r name).2.nextId = r.nextId := by
  rw [Subscriptions.drop]
  cases s.numbers.lookup name <;> rfl

theorem foldl_ending (w : Listening α) (name : String) (entries : List (Nat × α)) :
    (w.ending name).foldl after entries =
      entries.filter fun e => w.subscriptions.numbers.lookup name ≠ some e.1 := by
  rw [ending]
  cases w.subscriptions.numbers.lookup name with
  | none => exact (List.filter_eq_self.2 fun e _ => decide_eq_true nofun).symm
  | some number =>
    refine List.filter_congr fun other _ => ?_
    simp [eq_comm]

theorem subscribed_ending (w : Listening α) (name : String) :
    (w.ending name).filterMap subscribed? = [] := by
  rw [ending]
  cases w.subscriptions.numbers.lookup name <;> rfl

theorem committed_ending (w : Listening α) (name : String) :
    (w.ending name).filterMap committed? = [] := by
  rw [ending]
  cases w.subscriptions.numbers.lookup name <;> rfl

/-- The registry is what the history makes of it, and no two names hold one subscription. -/
structure Kept (w : Listening α) : Prop where
  standing : w.store.listeners.entries = w.history.foldl after []
  numbers : (w.history.filterMap subscribed?).map (·.1) = List.range w.store.listeners.nextId
  held : (w.subscriptions.numbers.map (·.2)).Nodup
  given : ∀ s ∈ w.subscriptions.numbers, s.2 < w.store.listeners.nextId

theorem standing_drop {r : Listeners α} {history : List (Occurrence α)}
    (h : r.entries = history.foldl after []) (w : Listening α) (name : String) :
    (w.subscriptions.drop r name).2.entries = (history ++ w.ending name).foldl after [] := by
  rw [entries_drop, List.foldl_append, foldl_ending, ← h]

theorem Kept.handle (h : w.Kept) (handling : Handling α) : (w.handle handling).Kept := by
  have hheld (name : String) : ((w.subscriptions.detach name).numbers.map (·.2)).Nodup :=
    h.held.sublist (List.filter_sublist.map _)
  have hgiven (name : String) : ∀ s ∈ (w.subscriptions.detach name).numbers,
      s.2 < w.store.listeners.nextId := fun s hs => h.given s (List.mem_filter.1 hs).1
  cases handling with
  | subscribe name listener =>
    let r := (w.store.listeners.subscribe listener).1
    have hnext : (w.handle (.subscribe name listener)).store.listeners.nextId =
      w.store.listeners.nextId + 1 := nextId_drop w.subscriptions r name
    refine ⟨?_, ?_, ?_, ?_⟩
    · have hr : r.entries =
          (w.history ++ [subscribed w.store.listeners.nextId listener]).foldl after [] := by
        rw [List.foldl_append, ← h.standing]
        rfl
      have hdrop := standing_drop hr w name
      rw [List.append_assoc] at hdrop
      exact hdrop
    · rw [hnext, List.range_succ, ← h.numbers]
      change ((w.history ++ .subscribed _ listener :: w.ending name).filterMap
        subscribed?).map (·.1) = _
      rw [List.filterMap_append, List.filterMap_cons_some (f := subscribed?) rfl,
        subscribed_ending, List.map_append]
      rfl
    · refine List.nodup_cons.2 ⟨fun hmem => ?_, hheld name⟩
      obtain ⟨s, hs, he⟩ := List.mem_map.1 hmem
      exact Nat.lt_irrefl _ (he ▸ hgiven name s hs)
    · rw [hnext]
      intro s hs
      rcases List.mem_cons.1 hs with rfl | hs
      · exact Nat.lt_succ_self _
      · exact Nat.lt_succ_of_lt (hgiven name s hs)
  | drop name =>
    have hnext : (w.handle (.drop name)).store.listeners.nextId = w.store.listeners.nextId :=
      nextId_drop w.subscriptions w.store.listeners name
    refine ⟨standing_drop h.standing w name, ?_, hheld name, ?_⟩
    · rw [hnext, ← h.numbers]
      change ((w.history ++ w.ending name).filterMap subscribed?).map (·.1) = _
      rw [List.filterMap_append, subscribed_ending, List.append_nil]
    · rw [hnext]
      exact hgiven name
  | detach name => exact ⟨h.standing, h.numbers, hheld name, hgiven name⟩

theorem Kept.eq_of_lookup (h : w.Kept) {name other : String} {number : Nat}
    (hname : w.subscriptions.numbers.lookup name = some number)
    (hother : w.subscriptions.numbers.lookup other = some number) : name = other := by
  have hmem {name : String} (hl : w.subscriptions.numbers.lookup name = some number) :
      (name, number) ∈ w.subscriptions.numbers := by
    obtain ⟨before, after, heq, -⟩ := List.lookup_eq_some_iff.1 hl
    exact heq ▸ List.mem_append_right _ List.mem_cons_self
  exact congrArg Prod.fst (List.inj_on_of_nodup_map h.held (hmem hname) (hmem hother) rfl)

/-! ### Calls -/

/-- Listeners are called and subscriptions handled, and nothing else happens. -/
structure Leads (w w' : Listening α) (notices : List (Notice α)) : Prop where
  ledger : w'.store.ledger = w.store.ledger
  notices : w'.notices = w.notices ++ notices
  history : ∃ handled, w'.history = w.history ++ handled ∧ handled.filterMap committed? = []
  kept : w.Kept → w'.Kept

namespace Leads

theorem refl (w : Listening α) : w.Leads w [] :=
  ⟨rfl, (List.append_nil _).symm, ⟨[], (List.append_nil _).symm, rfl⟩, id⟩

theorem trans (h : w.Leads w' notices) (h' : w'.Leads w'' notices') :
    w.Leads w'' (notices ++ notices') where
  ledger := h'.ledger.trans h.ledger
  notices := by rw [h'.notices, h.notices, List.append_assoc]
  history := by
    obtain ⟨handled, heq, hquiet⟩ := h.history
    obtain ⟨handled', heq', hquiet'⟩ := h'.history
    refine ⟨handled ++ handled', by rw [heq', heq, List.append_assoc], ?_⟩
    rw [List.filterMap_append, hquiet, hquiet', List.append_nil]
  kept := h'.kept ∘ h.kept

theorem handle (w : Listening α) (handling : Handling α) : w.Leads (w.handle handling) [] := by
  have hkept : w.Kept → (w.handle handling).Kept := fun h => h.handle handling
  cases handling with
  | subscribe name listener =>
    exact ⟨rfl, (List.append_nil _).symm, ⟨_, rfl, w.committed_ending name⟩, hkept⟩
  | drop name => exact ⟨rfl, (List.append_nil _).symm, ⟨_, rfl, w.committed_ending name⟩, hkept⟩
  | detach name =>
    exact ⟨rfl, (List.append_nil _).symm, ⟨[], (List.append_nil _).symm, rfl⟩, hkept⟩

theorem foldl_handle (w : Listening α) (handlings : List (Handling α)) :
    w.Leads (handlings.foldl Listening.handle w) [] := by
  induction handlings generalizing w with
  | nil => exact refl w
  | cons handling handlings ih => exact (handle w handling).trans (ih _)

theorem hear (conduct : Conduct α) (number : Nat) (listener : α) (block : Block)
    (w : Listening α) : w.Leads (hear conduct number listener block w)
      [⟨number, listener, block, w.store.ledger⟩] := by
  let notice : Notice α := ⟨number, listener, block, w.store.ledger⟩
  have hcalled : w.Leads { w with notices := w.notices ++ [notice] } [notice] :=
    ⟨rfl, rfl, ⟨[], (List.append_nil _).symm, rfl⟩,
      fun h => ⟨h.standing, h.numbers, h.held, h.given⟩⟩
  exact hcalled.trans (foldl_handle _ _)

/-- Those are called who were subscribed when it began, whatever the earlier of them do. -/
theorem notify (r : Listeners α) (conduct : Conduct α) (block : Block) (w : Listening α) :
    w.Leads (r.notify (Listening.hear conduct) block w)
      (r.entries.map fun e => ⟨e.1, e.2, block, w.store.ledger⟩) := by
  rw [Listeners.notify]
  induction r.entries generalizing w with
  | nil => exact refl w
  | cons e entries ih =>
    have hfirst := hear conduct e.1 e.2 block w
    have hrest := ih (Listening.hear conduct e.1 e.2 block w)
    rw [hfirst.ledger] at hrest
    exact hfirst.trans hrest

end Leads

/-! ### Commits -/

theorem commit_store (s : Store α) (noOpenBlock : ε)
    (attempt : Ledger → Option (Ledger × Except ε Unit)) :
    ∃ ledger, (s.commit noOpenBlock attempt).1 = { s with ledger } := by
  rw [Store.commit]
  cases attempt s.ledger with
  | none => exact ⟨s.ledger, rfl⟩
  | some after => exact ⟨_, rfl⟩

theorem listeners_commit (s : Store α) (noOpenBlock : ε)
    (attempt : Ledger → Option (Ledger × Except ε Unit)) :
    (s.commit noOpenBlock attempt).1.listeners = s.listeners := by
  obtain ⟨ledger, hs⟩ := commit_store s noOpenBlock attempt
  rw [hs]

theorem tip_commit {s : Store α} {noOpenBlock : ε}
    {attempt : Ledger → Option (Ledger × Except ε Unit)} {c : Committed α} (h : (s.commit noOpenBlock attempt).2 = .ok c) :
    (s.commit noOpenBlock attempt).1.ledger.tip? = some c.block := by
  revert h
  rcases hattempt : attempt s.ledger with _ | ⟨after, e | u⟩
  · intro h
    rw [Store.commit, hattempt] at h
    cases h
  · intro h
    rw [Store.commit, hattempt] at h
    cases h
  · cases hc : after.chain with
    | nil =>
      intro h
      simp [Store.commit, hattempt, Ledger.settle, hc, Result.ofExcept] at h
    | cons tip older =>
      by_cases hcount : older.length = s.ledger.chain.length
      · intro h
        simp only [Store.commit, hattempt, Ledger.settle, hc, hcount, if_true,
          Result.ofExcept, Result.map_ok, Result.ok.injEq] at h ⊢
        rw [← h, Ledger.tip?, hc]
        rfl
      · intro h
        simp [Store.commit, hattempt, Ledger.settle, hc, hcount, Result.ofExcept] at h

theorem step_of_not_ok {noOpenBlock : ε} {attempt : Ledger → Option (Ledger × Except ε Unit)}
    (h : ∀ c, (w.store.commit noOpenBlock attempt).2 ≠ .ok c) (conduct : Conduct α) :
    w.step (.apply noOpenBlock attempt conduct) =
      { w with store := (w.store.commit noOpenBlock attempt).1 } := by
  rw [step]
  rcases hcommit : w.store.commit noOpenBlock attempt with ⟨store, c | e | -⟩
  · rw [hcommit] at h
    exact absurd rfl (h c)
  · rfl
  · rfl

theorem leads_step {noOpenBlock : ε} {attempt : Ledger → Option (Ledger × Except ε Unit)}
    {c : Committed α} (h : (w.store.commit noOpenBlock attempt).2 = .ok c)
    (conduct : Conduct α) :
    let store := (w.store.commit noOpenBlock attempt).1
    Leads { w with store, history := w.history ++ [.committed c.block] }
      (w.step (.apply noOpenBlock attempt conduct))
      (w.store.listeners.entries.map fun e => ⟨e.1, e.2, c.block, store.ledger⟩) := by
  intro store
  have hstep : w.step (.apply noOpenBlock attempt conduct) =
      store.listeners.notify (hear conduct) c.block
        { w with store, history := w.history ++ [.committed c.block] } := by
    rw [step]
    rcases hcommit : w.store.commit noOpenBlock attempt with ⟨store', c' | e | -⟩
    · rw [hcommit] at h
      cases h
      simp only [store, hcommit]
    · rw [hcommit] at h
      cases h
    · rw [hcommit] at h
      cases h
  rw [hstep, ← listeners_commit w.store noOpenBlock attempt]
  exact Leads.notify ..

/-! ### Runs -/

/-- Just those have been called who had to be, and they found the block at the tip. -/
structure Faithful (w : Listening α) : Prop extends Kept w where
  called : w.notices.map (fun notice => ((notice.number, notice.listener), notice.block)) =
    due [] w.history
  atTip : ∀ notice ∈ w.notices, notice.found.tip? = some notice.block

namespace Faithful

theorem leads (h : w.Faithful) (hl : w.Leads w' []) : w'.Faithful := by
  have hnotices : w'.notices = w.notices := hl.notices.trans (List.append_nil _)
  obtain ⟨handled, heq, hquiet⟩ := hl.history
  refine ⟨hl.kept h.toKept, ?_, ?_⟩
  · rw [hnotices, heq, due_append, due_of_quiet hquiet, List.append_nil, h.called]
  · rw [hnotices]
    exact h.atTip

theorem withLedger (h : w.Faithful) (ledger : Ledger) :
    Faithful { w with store.ledger := ledger } :=
  ⟨⟨h.standing, h.numbers, h.held, h.given⟩, h.called, h.atTip⟩

theorem commit (h : w.Faithful) (noOpenBlock : ε)
    (attempt : Ledger → Option (Ledger × Except ε Unit)) :
    Faithful { w with store := (w.store.commit noOpenBlock attempt).1 } := by
  obtain ⟨ledger, hs⟩ := commit_store w.store noOpenBlock attempt
  rw [hs]
  exact h.withLedger ledger

theorem apply (h : w.Faithful) (noOpenBlock : ε)
    (attempt : Ledger → Option (Ledger × Except ε Unit)) (conduct : Conduct α) : (w.step (.apply noOpenBlock attempt conduct)).Faithful := by
  by_cases hok : ∃ c, (w.store.commit noOpenBlock attempt).2 = .ok c
  · obtain ⟨c, hresult⟩ := hok
    have hl := leads_step hresult conduct
    obtain ⟨handled, heq, hquiet⟩ := hl.history
    have hcommit := (h.commit noOpenBlock attempt).toKept
    refine ⟨hl.kept ⟨?_, ?_, hcommit.held, hcommit.given⟩, ?_, fun notice hnotice => ?_⟩
    · rw [List.foldl_append]
      exact hcommit.standing
    · rw [List.filterMap_append, List.map_append]
      exact (List.append_nil _).trans hcommit.numbers
    · rw [hl.notices, heq, List.map_append, h.called, List.append_assoc, due_append,
        ← h.standing, List.map_map]
      change _ = _ ++ (_ ++ due _ handled)
      rw [due_of_quiet hquiet, List.append_nil]
      rfl
    · rw [hl.notices] at hnotice
      rcases List.mem_append.1 hnotice with hold | hnew
      · exact h.atTip notice hold
      · obtain ⟨e, -, rfl⟩ := List.mem_map.1 hnew
        exact tip_commit hresult
  · rw [step_of_not_ok (not_exists.1 hok)]
    exact h.commit noOpenBlock attempt

theorem step (h : w.Faithful) (s : Step α ε) : (w.step s).Faithful := by
  cases s with
  | handle handling => exact h.leads (.handle w handling)
  | apply noOpenBlock attempt conduct => exact h.apply noOpenBlock attempt conduct
  | removeTip =>
    rw [Listening.step]
    cases w.store.ledger.removeTip with
    | none => exact h
    | some removed => exact h.withLedger removed.2

end Faithful

theorem faithful_run (genesis : Genesis) (steps : List (Step α ε)) :
    (run genesis steps).Faithful := by
  refine List.foldlRecOn steps step ?_ fun _ h s _ => h.step s
  exact ⟨⟨rfl, rfl, List.nodup_nil, nofun⟩, rfl, nofun⟩

theorem Faithful.heard (h : w.Faithful) (number : Nat) :
    w.heard number =
      ((due [] w.history).filter (·.1.1 = number)).map fun call => (call.1.2, call.2) := by
  rw [← h.called, List.filter_map, List.map_map]
  rfl

theorem Faithful.heard_subscribed (h : w.Faithful) {before after : List (Occurrence α)}
    {number : Nat} {listener : α}
    (heq : w.history = before ++ .subscribed number listener :: after) :
    w.heard number =
      ((after.takeWhile (·.ended? ≠ some number)).filterMap committed?).map (listener, ·) := by
  have hd : ((before.filterMap subscribed? ++
      (number, listener) :: after.filterMap subscribed?).map (·.1)).Nodup := by
    have hnumbers := h.numbers
    rw [heq, List.filterMap_append, List.filterMap_cons_some (f := subscribed?) rfl] at hnumbers
    exact hnumbers ▸ List.nodup_range
  have hbefore : number ∉ (before.filterMap subscribed?).map (·.1) := fun hmem => by
    rw [List.map_append] at hd
    exact List.disjoint_of_nodup_append hd hmem List.mem_cons_self
  -- Those who are subscribed when it begins have subscribed before it, and so have other numbers.
  have hnow : (((before.foldl Occurrence.after [] ++ [(number, listener)]) ++
      after.filterMap subscribed?).map (·.1)).Nodup := by
    rw [List.append_assoc]
    exact hd.sublist (((sublist_foldl_after [] before).append_right _).map _)
  rw [h.heard, heq, due_append, List.filter_append, due_of_absent List.not_mem_nil hbefore,
    List.nil_append, due]
  exact due_of_present (List.mem_append_right _ List.mem_cons_self) hnow

theorem heard_of_run (genesis : Genesis) (steps : List (Step α ε)) :
    let w := run genesis steps
    -- Subscriptions are numbered as they come.
    (w.history.filterMap subscribed?).map (·.1) = List.range w.store.listeners.nextId ∧
      (∀ before number listener after,
        w.history = before ++ .subscribed number listener :: after → w.heard number =
          ((after.takeWhile (·.ended? ≠ some number)).filterMap committed?).map (listener, ·)) ∧
      (∀ number, number ∉ (w.history.filterMap subscribed?).map (·.1) → w.heard number = []) ∧
      (∀ notice ∈ w.notices, notice.found.tip? = some notice.block) ∧
      (w.store.listeners.entries.map (·.1)).Pairwise (· < ·) ∧
      -- To drop a name is to end one subscription, which no other name holds.
      (∀ name, (w.handle (.drop name)).store.listeners.entries = w.store.listeners.entries.filter
        fun e => w.subscriptions.numbers.lookup name ≠ some e.1) ∧
      (∀ name other number, w.subscriptions.numbers.lookup name = some number →
        w.subscriptions.numbers.lookup other = some number → name = other) ∧
      ∀ (noOpenBlock : ε) attempt (conduct : Conduct α),
        let (store, result) := w.store.commit noOpenBlock attempt
        let w' := w.step (.apply noOpenBlock attempt conduct)
        match result with
        | .error _ | .never => w' = { w with store } ∧ store.listeners = w.store.listeners
        | .ok c =>
          w'.notices = w.notices ++
              w.store.listeners.entries.map (fun e => ⟨e.1, e.2, c.block, store.ledger⟩) ∧
            ∃ handled, handled.filterMap committed? = [] ∧
              w'.history = w.history ++ .committed c.block :: handled := by
  intro w
  have h : w.Faithful := faithful_run genesis steps
  refine ⟨h.numbers, fun before number listener after heq => h.heard_subscribed heq,
    fun number hnumber => ?_, h.atTip, ?_, fun name => entries_drop ..,
    fun name other number => h.eq_of_lookup, fun noOpenBlock attempt conduct => ?_⟩
  · rw [h.heard, due_of_absent List.not_mem_nil hnumber]
    rfl
  · rw [h.standing]
    have hsub := (sublist_foldl_after [] w.history).map Prod.fst
    rw [List.nil_append, h.numbers] at hsub
    exact List.pairwise_lt_range.sublist hsub
  · have hrefused (hnot : ∀ c, (w.store.commit noOpenBlock attempt).2 ≠ .ok c) :=
      And.intro (step_of_not_ok hnot conduct) (listeners_commit w.store noOpenBlock attempt)
    rcases hcommit : w.store.commit noOpenBlock attempt with ⟨store, c | e | -⟩
    rotate_left
    · rw [hcommit] at hrefused
      exact hrefused fun c h => by cases h
    · rw [hcommit] at hrefused
      exact hrefused fun c h => by cases h
    · have hl := leads_step (congrArg (·.2) hcommit) conduct
      rw [hcommit] at hl
      obtain ⟨handled, heq, hquiet⟩ := hl.history
      refine ⟨hl.notices, handled, hquiet, heq.trans ?_⟩
      exact List.append_assoc ..

def sampleConduct : Conduct String := fun number _ block _ =>
  if number = 0 ∧ block.height = 10 then [.drop "second", .subscribe "third" "c"] else []

def sampleSteps : List (Step String Unit) :=
  [.handle (.subscribe "first" "a"), .handle (.subscribe "second" "b"),
    .apply () (fun l => some (l.opened Sample.first, .ok ())) sampleConduct,
    .apply () (fun l => some (l.opened Sample.clash, .error ())) sampleConduct,
    .apply () (fun l => some (l.opened Sample.second, .ok ())) sampleConduct]

theorem heard_sampleSteps :
    let w := run Sample.genesis sampleSteps
    let heights number := (w.heard number).map fun call => (call.1, call.2.height)
    w.history = [] ++ .subscribed 0 "a" :: w.history.tail ∧
      w.heard 0 =
        ((w.history.tail.takeWhile (·.ended? ≠ some 0)).filterMap committed?).map ("a", ·) ∧
      heights 0 = [("a", 10), ("a", 11)] ∧ heights 1 = [("b", 10)] ∧ heights 2 = [("c", 11)] := by
  intro w heights
  have hhistory : w.history = [] ++ .subscribed 0 "a" :: w.history.tail := rfl
  obtain ⟨-, hheard, -⟩ := heard_of_run Sample.genesis sampleSteps
  exact ⟨hhistory, hheard [] 0 "a" _ hhistory, by decide +kernel, by decide +kernel,
    by decide +kernel⟩

end Listening

end DaoLedger
