import DaoLedger.Governance.BlindVote
/-!
The voter's own votes. A vote is kept from its creation on, since its key has to last until it is
revealed. The list is written to storage with every change; a change that cannot be stored is
taken back.
-/
namespace DaoLedger

open Crypto (SecretKey)

structure OwnVote where
  height : UInt32
  ballots : List Ballot
  key : SecretKey
  blindVote : BlindVote
  date : UInt64
  revealTxId : Option TxId
deriving DecidableEq, Inhabited, Repr

def OwnVote.merits (v : OwnVote) : Except GovernanceError (List Merit) := v.blindVote.merits v.key

class VoteStorage (σ : Type) where
  load : σ → Except GovernanceError (List OwnVote)
  save : σ → List OwnVote → σ × Except GovernanceError Unit

structure MemoryStorage where
  stored : List OwnVote
  refusal : Option GovernanceError

instance : VoteStorage MemoryStorage where
  load s := .ok s.stored
  save s votes :=
    match s.refusal with
    | some e => (s, .error e)
    | none => ({ s with stored := votes }, .ok ())

structure VoteList (σ : Type) where
  votes : List OwnVote
  storage : σ

namespace VoteList

variable {σ : Type} [VoteStorage σ]

def load (storage : σ) : Except GovernanceError (VoteList σ) :=
  (VoteStorage.load storage).map (⟨·, storage⟩)

def persist (l : VoteList σ) : VoteList σ × Except GovernanceError Unit :=
  let (storage, result) := VoteStorage.save l.storage l.votes
  ({ l with storage }, result)

/-- Adds a new blind vote at the current chain height; it is taken off again if it cannot be
stored. -/
def add (l : VoteList σ) (ledger : Ledger) (ballots : List Ballot) (key : SecretKey)
    (blindVote : BlindVote) (date : UInt64) : VoteList σ × Except GovernanceError Unit :=
  let vote : OwnVote := ⟨ledger.chainHeight, ballots, key, blindVote, date, none⟩
  match { l with votes := l.votes ++ [vote] }.persist with
  | (l, .ok ()) => (l, .ok ())
  | (l, .error e) => ({ l with votes := l.votes.dropLast }, .error e)

/-- Sets the reveal of the first vote that a transaction published. What it was before comes with
the votes. -/
def setReveal (blindVoteTxId : TxId) (reveal : Option TxId) :
    List OwnVote → Option (List OwnVote × Option TxId)
  | [] => none
  | v :: vs =>
    if v.blindVote.txId = some blindVoteTxId then
      some ({ v with revealTxId := reveal } :: vs, v.revealTxId)
    else (setReveal blindVoteTxId reveal vs).map fun (vs, previous) => (v :: vs, previous)

/-- Notes the transaction that reveals a vote. If that cannot be stored, the vote is searched once
more and gets back the reveal that it had. -/
def reveal (l : VoteList σ) (blindVoteTxId revealTxId : TxId) :
    VoteList σ × Except GovernanceError Unit :=
  match setReveal blindVoteTxId (some revealTxId) l.votes with
  | none => (l, .error (.voteNotFound blindVoteTxId))
  | some (votes, previous) =>
    match { l with votes }.persist with
    | (l, .ok ()) => (l, .ok ())
    | (l, .error e) =>
      match setReveal blindVoteTxId previous l.votes with
      | some (votes, _) => ({ l with votes }, .error e)
      | none => (l, .error e)

/-- The height at which a vote's merit is weighed: that of its transaction once there is one. -/
def weighingHeight (ledger : Ledger) (v : OwnVote) : UInt32 :=
  ((v.blindVote.txId.bind ledger.tx?).map (·.blockHeight)).getD v.height

def weightFor (l : VoteList σ) (proposalTxId : TxId) (ledger : Ledger) (blocksPerYear : UInt32) :
    Except GovernanceError (Option (Nat × UInt64)) :=
  match l.votes.find? fun v => (Ballot.find? v.ballots proposalTxId).isSome with
  | none => .ok none
  | some v => do
    let merits ← v.merits
    match ledger.meritStake merits (weighingHeight ledger v) blocksPerYear with
    | .error e => .error (.invalidArgument e)
    | .ok merit => return some (merit, v.blindVote.stake)

def inCycle (l : VoteList σ) (cycle : Cycle) : List OwnVote :=
  l.votes.filter fun v => cycle.contains v.height.toNat

end VoteList

open Json (record? needed? optional?)

instance : JsonFormat OwnVote where
  toJson v := .object [("height", toJson v.height), ("ballot_list", toJson v.ballots),
    ("secret_key", toJson v.key), ("blind_vote", toJson v.blindVote), ("date", toJson v.date),
    ("reveal_tx_id", toJson v.revealTxId)]
  ofJson? v := do
    let [height, ballots, key, blindVote, date, revealTxId] ←
      record? ["height", "ballot_list", "secret_key", "blind_vote", "date", "reveal_tx_id"] v
      | none
    return ⟨← needed? height, ← needed? ballots, ← needed? key, ← needed? blindVote,
      ← needed? date, ← optional? revealTxId⟩

end DaoLedger
