import DaoLedger.Governance.Ballot
import DaoLedger.Governance.Merit
import DaoLedger.Crypto.SealedBox
/-!
Blind votes: votes and merits sealed with a key that is published later.
-/
namespace DaoLedger

open Crypto (SealError SecretKey Nonce)

inductive GovernanceError where
  | invalidArgument (error : MeritError)
  | layout (error : LayoutError)
  | crypto (error : SealError)
  | voteNotFound (blindVoteTxId : TxId)
  | invalidVoteList
  | storage (reason : String)
deriving DecidableEq, Inhabited, Repr

def GovernanceError.message : GovernanceError → String
  | .invalidArgument error => "invalid argument: " ++ error.message
  | .layout error => "serialization error: " ++ error.message
  | .crypto error => error.message
  | .voteNotFound id => s!"no vote with blind vote tx {id}"
  | .invalidVoteList => "serialization error: invalid vote list JSON"
  | .storage reason => s!"storage error: {reason}"

structure BlindVote where
  encryptedVotes : List UInt8
  txId : Option TxId
  stake : UInt64
  encryptedMerits : List UInt8
deriving DecidableEq, Inhabited, Repr

namespace BlindVote

/-- Seals votes and merits with one key, each under a nonce of its own. -/
def create (ballots : List Ballot) (merits : List Merit) (stake : UInt64) (key : SecretKey)
    (voteNonce meritNonce : Nonce) : Except SealError BlindVote := do
  let votes ← Crypto.encrypt voteNonce (Layout.bytes (Ballot.votes ballots)) key.toList
  let merits ← Crypto.encrypt meritNonce (Layout.bytes merits) key.toList
  return ⟨votes, none, stake, merits⟩

def openSealed {α : Type} [Layout α] (sealedText : List UInt8) (key : SecretKey) :
    Except GovernanceError α :=
  match Crypto.decrypt sealedText key.toList with
  | .error e => .error (.crypto e)
  | .ok plain =>
    match Layout.ofBytes plain with
    | .error e => .error (.layout e)
    | .ok a => .ok a

def votes (b : BlindVote) (key : SecretKey) : Except GovernanceError (List CastVote) :=
  openSealed b.encryptedVotes key

def merits (b : BlindVote) (key : SecretKey) : Except GovernanceError (List Merit) :=
  openSealed b.encryptedMerits key

def hash (b : BlindVote) : Hash160 := OpReturn.payloadHash b.encryptedVotes

def payload (b : BlindVote) : List UInt8 := OpReturn.hashPayload .blindVote b.hash

def publishedIds (votes : List BlindVote) : List TxId :=
  (votes.filterMap (·.txId)).mergeSort fun a b => (compare a b).isLE

/-- Names a set of published blind votes, in whatever order they are given. -/
def listHash (votes : List BlindVote) : Hash160 := OpReturn.payloadHash (publishedIds votes)

end BlindVote

open Json (record? needed? optional?)

instance : JsonFormat BlindVote where
  toJson b := .object [("encrypted_votes", toJson b.encryptedVotes), ("tx_id", toJson b.txId),
    ("stake", toJson b.stake), ("encrypted_merit_list", toJson b.encryptedMerits)]
  ofJson? v := do
    let [encryptedVotes, txId, stake, encryptedMerits] ←
      record? ["encrypted_votes", "tx_id", "stake", "encrypted_merit_list"] v | none
    return ⟨← needed? encryptedVotes, ← optional? txId, ← needed? stake, ← needed? encryptedMerits⟩

end DaoLedger
