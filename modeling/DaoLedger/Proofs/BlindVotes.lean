import DaoLedger.Proofs.GovernanceLayouts
import DaoLedger.Proofs.Sealing
import DaoLedger.Proofs.Sorting
import Mathlib.Data.List.Nodup
/-!
What a blind vote holds. Main statement: the key that sealed it opens the votes on the published
proposals, sorted by their ids, and the merits; how the ballots were arranged does not show.
-/
namespace DaoLedger

open Crypto (SecretKey Nonce)
open Layout (Sized)

/-! ### Votes in canonical order -/

namespace Ballot
variable {ballots other : List Ballot}

theorem votes_perm (ballots : List Ballot) :
    (votes ballots).Perm (ballots.filterMap Ballot.cast?) := List.mergeSort_perm _ _

theorem pairwise_votes (ballots : List Ballot) :
    (votes ballots).Pairwise fun a b => a.proposalTxId.text ≤ b.proposalTxId.text :=
  (pairwise_mergeSort_isLE (compareOn CastVote.proposalTxId) _).imp TxId.isLE_compare.1

theorem proposalTxIds_cast (ballots : List Ballot) :
    (ballots.filterMap Ballot.cast?).map (·.proposalTxId) =
      ballots.filterMap (·.proposal.txId) := by
  have hid (b : Ballot) : b.cast?.map (·.proposalTxId) = b.proposal.txId := by
    rw [Ballot.cast?, Option.map_map]
    exact Option.map_id'
  rw [List.map_filterMap]
  exact congrArg (List.filterMap · ballots) (funext hid)

theorem votes_eq_of_perm (hn : (ballots.filterMap (·.proposal.txId)).Nodup)
    (hp : (ballots.filterMap Ballot.cast?).Perm (other.filterMap Ballot.cast?)) :
    votes ballots = votes other := by
  rw [← proposalTxIds_cast] at hn
  refine (mergeSort_isLE_eq_iff (compareOn CastVote.proposalTxId) ?_).2 hp
  intro a ha b hb heq
  exact List.inj_on_of_nodup_map hn ha hb (Std.LawfulEqOrd.eq_of_compare heq)

theorem filterMap_cast_of_unpublished (h : ∀ b ∈ ballots, b.proposal.txId = none) :
    ballots.filterMap Ballot.cast? = [] :=
  List.filterMap_eq_nil_iff.2 fun b hb => by rw [Ballot.cast?, h b hb]; rfl

end Ballot

/-! ### Sealing and opening -/

namespace BlindVote
variable {α : Type} [Layout α] [Layout.Exact α]

theorem openSealed_encrypt {a : α} (ha : Sized a) (key : SecretKey) (nonce : Nonce) :
    ∃ sealedText, Crypto.encrypt nonce (Layout.bytes a) key.toList = .ok sealedText ∧
      openSealed sealedText key = (.ok a : Except GovernanceError α) := by
  have hkey : key.toList.length = Crypto.keyLength := key.length_toList
  have hplain : Layout.ofBytes (Layout.bytes a) = .ok a :=
    Layout.ofBytes_eq_ok.2 ⟨ha, [], (List.append_nil _).symm⟩
  obtain ⟨sealedText, hseal, hopen⟩ := Crypto.decrypt_encrypt nonce (Layout.bytes a) hkey
  refine ⟨sealedText, hseal, ?_⟩
  rw [openSealed, hopen]
  dsimp only
  rw [hplain]

/-- A blind vote opens to the votes and merits that it was made of, and its votes do not tell in
which order or among which unpublished proposals they were cast. `Sized` only says that the lengths
fit the eight bytes that they are written in. -/
theorem opens_to_cast_votes (ballots : List Ballot) (merits : List Merit) (stake : UInt64)
    (key : SecretKey) (voteNonce meritNonce : Nonce) (hv : Sized (Ballot.votes ballots))
    (hm : Sized merits) :
    (∃ b, create ballots merits stake key voteNonce meritNonce = .ok b ∧
        b.votes key = .ok (Ballot.votes ballots) ∧ b.merits key = .ok merits) ∧
      (Ballot.votes ballots).Perm (ballots.filterMap Ballot.cast?) ∧
      ((Ballot.votes ballots).Pairwise fun a b => a.proposalTxId.text ≤ b.proposalTxId.text) ∧
      ((ballots.filterMap (·.proposal.txId)).Nodup → ∀ unpublished reordered,
        (∀ b ∈ unpublished, b.proposal.txId = none) → reordered.Perm (ballots ++ unpublished) →
          Layout.bytes (Ballot.votes reordered) = Layout.bytes (Ballot.votes ballots)) := by
  refine ⟨?_, Ballot.votes_perm ballots, Ballot.pairwise_votes ballots, ?_⟩
  · obtain ⟨sealedVotes, hvotes, hopenVotes⟩ := openSealed_encrypt hv key voteNonce
    obtain ⟨sealedMerits, hmerits, hopenMerits⟩ := openSealed_encrypt hm key meritNonce
    refine ⟨⟨sealedVotes, none, stake, sealedMerits⟩, ?_, hopenVotes, hopenMerits⟩
    rw [create, hvotes, hmerits]
    rfl
  · intro hn unpublished reordered hu hp
    have hcast := hp.filterMap Ballot.cast?
    rw [List.filterMap_append, Ballot.filterMap_cast_of_unpublished hu, List.append_nil] at hcast
    rw [Ballot.votes_eq_of_perm hn hcast.symm]

def sampleBallots : List Ballot :=
  let proposal : Proposal := .new "p" "" .generic 0
  [⟨{ proposal with txId := some ⟨"b"⟩ }, some .reject⟩, ⟨proposal, some .accept⟩,
    ⟨{ proposal with txId := some ⟨"a"⟩ }, none⟩]

theorem opens_to_cast_votes_sampleBallots :
    let merits : List Merit := [⟨⟨"c"⟩, 5, 100⟩]
    let key : SecretKey := Vector.replicate 32 7
    Sized (Ballot.votes sampleBallots) ∧ Sized merits ∧
      Ballot.votes sampleBallots = [⟨⟨"a"⟩, none⟩, ⟨⟨"b"⟩, some .reject⟩] ∧
      (∃ b, create sampleBallots merits 9 key (Vector.replicate 12 1) (Vector.replicate 12 2) =
          .ok b ∧ b.votes key = .ok [⟨⟨"a"⟩, none⟩, ⟨⟨"b"⟩, some .reject⟩] ∧
          b.merits key = .ok merits) ∧
      Layout.bytes (Ballot.votes sampleBallots.reverse) =
        Layout.bytes (Ballot.votes sampleBallots) := by
  intro merits key
  have hreverse := List.reverse_perm sampleBallots
  have hsorted : Ballot.votes sampleBallots.reverse = [⟨⟨"a"⟩, none⟩, ⟨⟨"b"⟩, some .reject⟩] :=
    List.mergeSort_of_pairwise (by decide)
  have hvotes : Ballot.votes sampleBallots = [⟨⟨"a"⟩, none⟩, ⟨⟨"b"⟩, some .reject⟩] :=
    (Ballot.votes_eq_of_perm (by decide) (hreverse.symm.filterMap _)).trans hsorted
  have hv : Sized (Ballot.votes sampleBallots) := by
    rw [hvotes]
    exact Layout.sized_of_length_lt _ (by decide)
  have hm : Sized merits := Layout.sized_of_length_lt _ (by decide)
  obtain ⟨hopens, -, -, hcanonical⟩ := opens_to_cast_votes sampleBallots merits 9 key
    (Vector.replicate 12 1) (Vector.replicate 12 2) hv hm
  have hadded : sampleBallots.reverse.Perm (sampleBallots ++ []) := by rwa [List.append_nil]
  exact ⟨hv, hm, hvotes, hvotes ▸ hopens, hcanonical (by decide) [] _ nofun hadded⟩

end BlindVote
end DaoLedger
