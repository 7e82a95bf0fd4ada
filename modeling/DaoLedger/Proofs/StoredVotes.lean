import DaoLedger.Governance.VoteList
/-!
The voter's own votes and the storage under them. Main statement: if saving stores the list as a
whole or fails and keeps what was stored, the votes in memory are always those that are stored. A
call that fails leaves them as they were, also where ids are repeated and where a vote had been
revealed before.
-/
namespace DaoLedger

open Crypto (SecretKey)

/-- Saving stores the list as a whole, or it fails and what was stored stays. -/
structure VoteStorage.Whole (σ : Type) [VoteStorage σ] : Prop where
  stored : ∀ (s s' : σ) votes, save s votes = (s', .ok ()) → load s' = .ok votes
  refused : ∀ (s s' : σ) votes e, save s votes = (s', .error e) → load s' = load s

theorem VoteStorage.whole_memoryStorage : Whole MemoryStorage where
  stored s s' votes h := by
    cases hr : s.refusal <;> simp only [save, hr, Prod.mk.injEq, reduceCtorEq, and_false] at h
    rw [← h.1]
    rfl
  refused s s' votes e h := by
    cases hr : s.refusal <;> simp only [save, hr, Prod.mk.injEq, reduceCtorEq, and_false] at h
    rw [h.1]

namespace VoteList

/-! ### The first vote of a transaction -/

section
variable {votes before after : List OwnVote} {v : OwnVote} {id : TxId}

structure First (id : TxId) (votes before : List OwnVote) (v : OwnVote) (after : List OwnVote) :
    Prop where
  eq : votes = before ++ v :: after
  published : v.blindVote.txId = some id
  none_before : ∀ w ∈ before, w.blindVote.txId ≠ some id

theorem exists_first (h : ∃ v ∈ votes, v.blindVote.txId = some id) :
    ∃ before v after, First id votes before v after := by
  induction votes with
  | nil => simp at h
  | cons w ws ih =>
    by_cases hw : w.blindVote.txId = some id
    · exact ⟨[], w, ws, rfl, hw, by simp⟩
    · obtain ⟨v, hv, hp⟩ := h
      have hmem : v ∈ ws := (List.mem_cons.1 hv).resolve_left fun he => hw (he ▸ hp)
      obtain ⟨before, v, after, rfl, hp, hb⟩ := ih ⟨v, hmem, hp⟩
      refine ⟨w :: before, v, after, rfl, hp, fun u hu => ?_⟩
      rcases List.mem_cons.1 hu with rfl | hu
      · exact hw
      · exact hb u hu

theorem setReveal_of_none (h : ∀ v ∈ votes, v.blindVote.txId ≠ some id) (reveal : Option TxId) :
    setReveal id reveal votes = none := by
  induction votes with
  | nil => rfl
  | cons w ws ih =>
    rw [setReveal, if_neg (h w List.mem_cons_self), ih fun v hv => h v (List.mem_cons_of_mem _ hv)]
    rfl

theorem First.setReveal (h : First id votes before v after) (reveal : Option TxId) :
    setReveal id reveal votes =
      some (before ++ { v with revealTxId := reveal } :: after, v.revealTxId) := by
  obtain ⟨rfl, hp, hb⟩ := h
  induction before with
  | nil => exact if_pos hp
  | cons w ws ih =>
    rw [List.cons_append, VoteList.setReveal, if_neg (hb w List.mem_cons_self),
      ih fun u hu => hb u (List.mem_cons_of_mem _ hu)]
    rfl

/-- Setting a reveal moves no vote, so the same vote is found again. -/
theorem First.revealed (h : First id votes before v after) (reveal : Option TxId) :
    First id (before ++ { v with revealTxId := reveal } :: after) before
      { v with revealTxId := reveal } after :=
  ⟨rfl, h.published, h.none_before⟩

end

/-! ### One call -/

inductive Call where
  | add (ledger : Ledger) (ballots : List Ballot) (key : SecretKey) (blindVote : BlindVote)
      (date : UInt64)
  | reveal (blindVoteTxId revealTxId : TxId)

/-- What a call has to make of the votes. -/
inductive Call.Changes (votes : List OwnVote) : Call → List OwnVote → Prop where
  | add (ledger : Ledger) (ballots : List Ballot) (key : SecretKey) (blindVote : BlindVote)
      (date : UInt64) :
    Changes votes (.add ledger ballots key blindVote date)
      (votes ++ [⟨ledger.chainHeight, ballots, key, blindVote, date, none⟩])
  | reveal {id revealTxId : TxId} {before after : List OwnVote} {v : OwnVote}
      (h : First id votes before v after) :
    Changes votes (.reveal id revealTxId)
      (before ++ { v with revealTxId := some revealTxId } :: after)

theorem Call.changes_or_none (votes : List OwnVote) (c : Call) :
    (∃ changed, c.Changes votes changed) ∨
      ∃ id revealTxId, c = .reveal id revealTxId ∧ ∀ v ∈ votes, v.blindVote.txId ≠ some id := by
  cases c with
  | add => exact .inl ⟨_, .add ..⟩
  | reveal id revealTxId =>
    by_cases hv : ∃ v ∈ votes, v.blindVote.txId = some id
    · obtain ⟨before, v, after, h⟩ := exists_first hv
      exact .inl ⟨_, .reveal h⟩
    · exact .inr ⟨id, revealTxId, rfl, fun v hm he => hv ⟨v, hm, he⟩⟩

variable {σ : Type} [VoteStorage σ] {l : VoteList σ} {votes : List OwnVote}

def call (l : VoteList σ) : Call → VoteList σ × Except GovernanceError Unit
  | .add ledger ballots key blindVote date => l.add ledger ballots key blindVote date
  | .reveal id revealTxId => l.reveal id revealTxId

def callAll (l : VoteList σ) (calls : List Call) : VoteList σ :=
  calls.foldl (fun l c => (l.call c).1) l

/-- New votes if they can be stored, and else the old ones. -/
def exchange (l : VoteList σ) (votes : List OwnVote) : VoteList σ × Except GovernanceError Unit :=
  match VoteStorage.save l.storage votes with
  | (storage, .ok ()) => (⟨votes, storage⟩, .ok ())
  | (storage, .error e) => (⟨l.votes, storage⟩, .error e)

theorem add_eq (l : VoteList σ) (ledger : Ledger) (ballots : List Ballot) (key : SecretKey)
    (blindVote : BlindVote) (date : UInt64) :
    l.add ledger ballots key blindVote date =
      l.exchange (l.votes ++ [⟨ledger.chainHeight, ballots, key, blindVote, date, none⟩]) := by
  rw [add, persist, exchange]
  rcases VoteStorage.save l.storage _ with ⟨storage, e | u⟩
  · exact congrArg (fun votes => (VoteList.mk votes storage, _)) List.dropLast_concat
  · rfl

theorem reveal_of_none {id : TxId} (h : ∀ v ∈ l.votes, v.blindVote.txId ≠ some id)
    (revealTxId : TxId) : l.reveal id revealTxId = (l, .error (.voteNotFound id)) := by
  rw [reveal, setReveal_of_none h]

/-- The second search finds the vote that was changed, and gives it back what it had. -/
theorem reveal_eq {id : TxId} {before after : List OwnVote} {v : OwnVote}
    (h : First id l.votes before v after) (revealTxId : TxId) :
    l.reveal id revealTxId =
      l.exchange (before ++ { v with revealTxId := some revealTxId } :: after) := by
  rw [reveal, h.setReveal]
  simp only [persist, exchange]
  rcases VoteStorage.save l.storage _ with ⟨storage, e | u⟩
  · simp only [(h.revealed (some revealTxId)).setReveal, ← h.eq]
  · rfl

theorem call_of_changes {c : Call} (h : c.Changes l.votes votes) : l.call c = l.exchange votes := by
  cases h with
  | add => exact add_eq ..
  | reveal h => exact reveal_eq h _

theorem exchange_snd (l : VoteList σ) (votes : List OwnVote) :
    (l.exchange votes).2 = (VoteStorage.save l.storage votes).2 := by
  rw [exchange]
  rcases VoteStorage.save l.storage votes with ⟨storage, e | u⟩ <;> rfl

theorem votes_exchange_of_ok (h : (l.exchange votes).2 = .ok ()) :
    (l.exchange votes).1.votes = votes := by
  rw [exchange] at h ⊢
  rcases hs : VoteStorage.save l.storage votes with ⟨storage, e | u⟩
  · simp [hs] at h
  · rfl

theorem votes_exchange_of_error {e : GovernanceError} (h : (l.exchange votes).2 = .error e) :
    (l.exchange votes).1.votes = l.votes := by
  rw [exchange] at h ⊢
  rcases hs : VoteStorage.save l.storage votes with ⟨storage, e | u⟩
  · rfl
  · simp [hs] at h

/-! ### Whole runs -/

theorem load_eq_ok : load l.storage = .ok l ↔ VoteStorage.load l.storage = .ok l.votes := by
  rw [load]
  cases VoteStorage.load l.storage with
  | error e => simp [Except.map]
  | ok votes =>
    rw [Except.map, Except.ok.injEq, Except.ok.injEq]
    exact ⟨congrArg VoteList.votes, fun h => by rw [h]⟩

theorem load_exchange (hw : VoteStorage.Whole σ) (hl : load l.storage = .ok l)
    (votes : List OwnVote) :
    load (l.exchange votes).1.storage = .ok (l.exchange votes).1 := by
  rw [load_eq_ok] at hl ⊢
  rw [exchange]
  rcases hs : VoteStorage.save l.storage votes with ⟨storage, e | u⟩
  · exact (hw.refused _ _ _ _ hs).trans hl
  · exact hw.stored _ _ _ hs

theorem load_call (hw : VoteStorage.Whole σ) (hl : load l.storage = .ok l) (c : Call) :
    load (l.call c).1.storage = .ok (l.call c).1 := by
  rcases c.changes_or_none l.votes with ⟨votes, h⟩ | ⟨id, revealTxId, rfl, hnone⟩
  · rw [call_of_changes h]
    exact load_exchange hw hl votes
  · rw [call, reveal_of_none hnone]
    exact hl

theorem load_callAll (hw : VoteStorage.Whole σ) (hl : load l.storage = .ok l)
    (calls : List Call) : load (l.callAll calls).storage = .ok (l.callAll calls) := by
  induction calls generalizing l with
  | nil => exact hl
  | cons c calls ih => exact ih (load_call hw hl c)

theorem load_of_load {storage : σ} (h : load storage = .ok l) : load l.storage = .ok l := by
  have hs : l.storage = storage := by
    rw [load] at h
    cases hs : VoteStorage.load storage with
    | error e => simp [hs, Except.map] at h
    | ok votes =>
      rw [hs] at h
      exact (congrArg VoteList.storage (Except.ok.inj h)).symm
  rw [hs]
  exact h

/-- Only a reveal without a vote fails before the storage is asked. All other failures are those of
the storage, in its own words. -/
theorem mirrors_storage_of_calls (hw : VoteStorage.Whole σ) {storage : σ}
    (hl : load storage = .ok l) (calls : List Call) (c : Call) :
    let before := l.callAll calls
    let after := (before.call c).1
    let result := (before.call c).2
    load before.storage = .ok before ∧ load after.storage = .ok after ∧
      (∀ e, result = .error e → after.votes = before.votes) ∧
      (result = .ok () → c.Changes before.votes after.votes) ∧
      (∀ votes, c.Changes before.votes votes →
        result = (VoteStorage.save before.storage votes).2) ∧
      ∀ id revealTxId, c = .reveal id revealTxId →
        ((∀ v ∈ before.votes, v.blindVote.txId ≠ some id) →
          after = before ∧ result = .error (.voteNotFound id)) ∧
        ((∀ votes, (VoteStorage.save before.storage votes).2 ≠ .error (.voteNotFound id)) →
          (result = .error (.voteNotFound id) ↔
            ∀ v ∈ before.votes, v.blindVote.txId ≠ some id)) := by
  intro before after result
  have hbefore : load before.storage = .ok before := load_callAll hw (load_of_load hl) calls
  refine ⟨hbefore, load_call hw hbefore c, fun e he => ?_, fun hok => ?_, fun votes h => ?_, ?_⟩
  · rcases c.changes_or_none before.votes with ⟨votes, h⟩ | ⟨id, revealTxId, rfl, hnone⟩
    · simp only [after, result, call_of_changes h] at he ⊢
      exact votes_exchange_of_error he
    · simp only [after, call, reveal_of_none hnone]
  · rcases c.changes_or_none before.votes with ⟨votes, h⟩ | ⟨id, revealTxId, rfl, hnone⟩
    · simp only [after, result, call_of_changes h] at hok ⊢
      rw [votes_exchange_of_ok hok]
      exact h
    · simp [result, call, reveal_of_none hnone] at hok
  · rw [← exchange_snd, ← call_of_changes h]
  · rintro id revealTxId rfl
    have hnone (h : ∀ v ∈ before.votes, v.blindVote.txId ≠ some id) :
        before.call (.reveal id revealTxId) = (before, .error (.voteNotFound id)) :=
      reveal_of_none h revealTxId
    refine ⟨fun h => ⟨congrArg Prod.fst (hnone h), congrArg Prod.snd (hnone h)⟩, fun hsave => ?_⟩
    refine ⟨fun he v hv hid => ?_, fun h => congrArg Prod.snd (hnone h)⟩
    obtain ⟨older, w, newer, hfirst⟩ := exists_first ⟨v, hv, hid⟩
    have hcall : result = (before.exchange _).2 :=
      congrArg Prod.snd (reveal_eq hfirst revealTxId)
    rw [hcall, exchange_snd] at he
    exact hsave _ he

/-! ### Storage that fails now and then -/

structure FailingStorage where
  stored : List OwnVote
  refusals : List (Option GovernanceError)

instance : VoteStorage FailingStorage where
  load s := .ok s.stored
  save s votes :=
    match s.refusals with
    | some e :: refusals => ({ s with refusals }, .error e)
    | none :: refusals => (⟨votes, refusals⟩, .ok ())
    | [] => (⟨votes, []⟩, .ok ())

theorem whole_failingStorage : VoteStorage.Whole FailingStorage where
  stored s s' votes h := by
    rcases s with ⟨stored, _ | ⟨_ | e, refusals⟩⟩ <;>
      simp only [VoteStorage.save, Prod.mk.injEq, reduceCtorEq, and_false, and_true] at h
    · rw [← h]
      rfl
    · rw [← h]
      rfl
  refused s s' votes e h := by
    rcases s with ⟨stored, _ | ⟨_ | e, refusals⟩⟩ <;>
      simp only [VoteStorage.save, Prod.mk.injEq, reduceCtorEq, and_false] at h
    rw [← h.1]
    rfl

def sampleVotes : List OwnVote :=
  let vote : OwnVote := ⟨10, [], Vector.replicate 32 0, ⟨[], some ⟨"b"⟩, 5, []⟩, 0, none⟩
  [{ vote with revealTxId := some ⟨"old"⟩ }, vote]

theorem mirrors_storage_sampleVotes :
    let storage : FailingStorage := ⟨sampleVotes, [some (.storage "disk full"), none]⟩
    let l : VoteList FailingStorage := ⟨sampleVotes, storage⟩
    let failed := (l.call (.reveal ⟨"b"⟩ ⟨"first"⟩)).1
    let revealed := (failed.call (.reveal ⟨"b"⟩ ⟨"second"⟩)).1
    VoteStorage.Whole FailingStorage ∧ load storage = .ok l ∧ failed.votes = sampleVotes ∧
      load failed.storage = .ok failed ∧ load revealed.storage = .ok revealed ∧
      revealed.votes.map (·.revealTxId) = [some ⟨"second"⟩, none] := by
  intro storage l failed revealed
  have hl : load storage = .ok l := rfl
  obtain ⟨-, -, hkept, -⟩ :=
    mirrors_storage_of_calls whole_failingStorage hl [] (.reveal ⟨"b"⟩ ⟨"first"⟩)
  obtain ⟨hfailed, hrevealed, -⟩ := mirrors_storage_of_calls whole_failingStorage hl
    [.reveal ⟨"b"⟩ ⟨"first"⟩] (.reveal ⟨"b"⟩ ⟨"second"⟩)
  exact ⟨whole_failingStorage, hl, hkept _ rfl, hfailed, hrevealed, rfl⟩

end VoteList

end DaoLedger
