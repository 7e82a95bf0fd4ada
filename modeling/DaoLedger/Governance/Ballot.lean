import DaoLedger.Governance.Proposal
/-!
Ballots: what a voter decides on each proposal, and the compact list of votes that is published.
-/
namespace DaoLedger

inductive Vote where
  | accept | reject
deriving DecidableEq, Inhabited, Repr

def Vote.all : List Vote := [.accept, .reject]

def Vote.name : Vote → String
  | .accept => "Accept"
  | .reject => "Reject"

structure Ballot where
  proposal : Proposal
  vote : Option Vote
deriving DecidableEq, Inhabited, Repr

structure CastVote where
  proposalTxId : TxId
  vote : Option Vote
deriving DecidableEq, Inhabited, Repr

def Ballot.cast? (b : Ballot) : Option CastVote := b.proposal.txId.map (⟨·, b.vote⟩)

namespace Ballot

def find? (ballots : List Ballot) (proposalTxId : TxId) : Option Ballot :=
  ballots.find? (·.proposal.txId = some proposalTxId)

/-- The votes on published proposals, sorted by their ids, so that equal ballots give equal
lists. -/
def votes (ballots : List Ballot) : List CastVote :=
  (ballots.filterMap Ballot.cast?).mergeSort fun a b =>
    (compare a.proposalTxId b.proposalTxId).isLE

end Ballot

open Layout in
instance : Layout Vote where
  write v := writeCase (Vote.all.idxOf v)
  read := do
    let n ← readCase Vote.all.length
    pure (Vote.all.getD n .accept)

open Layout in
instance : Layout CastVote where
  write v := write v.proposalTxId ++ write v.vote
  read := return ⟨← read, ← read⟩

open Json (record? needed? optional?)

instance : JsonFormat Vote where
  toJson v := Json.ofText v.name
  ofJson? := Json.plainCase? Vote.all Vote.name

instance : JsonFormat Ballot where
  toJson b := .object [("proposal", toJson b.proposal), ("vote", toJson b.vote)]
  ofJson? v := do
    let [proposal, vote] ← record? ["proposal", "vote"] v | none
    return ⟨← needed? proposal, ← optional? vote⟩

instance : JsonFormat CastVote where
  toJson v := .object [("proposal_tx_id", toJson v.proposalTxId), ("vote", toJson v.vote)]
  ofJson? v := do
    let [proposalTxId, vote] ← record? ["proposal_tx_id", "vote"] v | none
    return ⟨← needed? proposalTxId, ← optional? vote⟩

end DaoLedger
