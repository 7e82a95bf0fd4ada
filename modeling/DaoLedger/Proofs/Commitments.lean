import DaoLedger.Proofs.GovernanceLayouts
import DaoLedger.Proofs.Sorting
/-!
What the hashes on the chain commit to. Main statements: a proposal's hash covers all that is voted
on and nothing else, and the hash of a list of blind votes covers the ids of the published ones,
each as often as it occurs, whatever their order.
-/
namespace DaoLedger

open Layout (Sized)

/-- Two different texts with one hash. -/
def Crypto.Collide (a b : List UInt8) : Prop := a ≠ b ∧ hash160 a = hash160 b

theorem Crypto.eq_of_hash160_eq {a b : List UInt8} (hc : ¬Collide a b)
    (h : hash160 a = hash160 b) : a = b :=
  Decidable.byContradiction fun hne => hc ⟨hne, h⟩

/-! ### Proposals -/

namespace Proposal
variable {p q : Proposal}

structure SameTerms (p q : Proposal) : Prop where
  name : p.name = q.name
  link : p.link = q.link
  kind : p.kind = q.kind
  version : p.version = q.version
  creationTime : p.creationTime = q.creationTime

theorem sameTerms_iff : p.SameTerms q ↔ p.toProposalTerms = q.toProposalTerms := by
  obtain ⟨⟨name, link, kind, version, creationTime⟩, txId⟩ := p
  obtain ⟨⟨name', link', kind', version', creationTime'⟩, txId'⟩ := q
  rw [ProposalTerms.mk.injEq]
  exact ⟨fun h => ⟨h.name, h.link, h.kind, h.version, h.creationTime⟩,
    fun ⟨hname, hlink, hkind, hversion, htime⟩ => ⟨hname, hlink, hkind, hversion, htime⟩⟩

def hashedText (p : Proposal) : List UInt8 := Layout.bytes p.toProposalTerms

theorem hash_eq (p : Proposal) : p.hash = Crypto.hash160 p.hashedText := rfl

theorem matchesHash_iff {hash : Hash160} : q.matchesHash hash ↔ q.hash = hash := decide_eq_true_iff

/-- No text of a field reaches into the next one, and no kind of proposal passes for another, as
long as the lengths fit the eight bytes that they are written in. -/
theorem hash_commits_to_terms (p q : Proposal) (hp : Sized p.toProposalTerms)
    (hq : Sized q.toProposalTerms) :
    (p.hashedText = q.hashedText ↔ p.SameTerms q) ∧
      (p.SameTerms q → q.matchesHash p.hash) ∧
      (¬Crypto.Collide p.hashedText q.hashedText → q.matchesHash p.hash → p.SameTerms q) ∧
      ∀ txId, ({ p with txId := txId } : Proposal).hash = p.hash := by
  have htext : p.hashedText = q.hashedText ↔ p.SameTerms q := by
    rw [hashedText, hashedText, Layout.bytes_inj hp hq, sameTerms_iff]
  refine ⟨htext, fun h => ?_, fun hc hm => ?_, fun txId => rfl⟩
  · rw [matchesHash_iff, hash_eq, hash_eq, htext.2 h]
  · rw [matchesHash_iff, hash_eq, hash_eq] at hm
    exact htext.1 (Crypto.eq_of_hash160_eq hc hm.symm)

theorem hash_commits_to_terms_shifted :
    let p := Proposal.new "ab" "c" (.compensationRequest 5 "d") 9
    let q := Proposal.new "a" "bc" (.compensationRequest 5 "d") 9
    Sized p.toProposalTerms ∧ Sized q.toProposalTerms ∧ p.hashedText ≠ q.hashedText ∧
      ({ p with txId := some ⟨"t"⟩ } : Proposal).matchesHash p.hash := by
  intro p q
  have hp : Sized p.toProposalTerms := Layout.sized_of_length_lt _ (by decide)
  have hq : Sized q.toProposalTerms := Layout.sized_of_length_lt _ (by decide)
  obtain ⟨htext, -⟩ := hash_commits_to_terms p q hp hq
  obtain ⟨-, hmatches, -⟩ := hash_commits_to_terms p { p with txId := some ⟨"t"⟩ } hp hp
  refine ⟨hp, hq, fun h => ?_, hmatches ⟨rfl, rfl, rfl, rfl, rfl⟩⟩
  exact absurd (htext.1 h).name (by decide)

end Proposal

/-! ### Lists of blind votes -/

namespace BlindVote

variable {seen other : List BlindVote}

theorem publishedIds_eq_iff : publishedIds seen = publishedIds other ↔
    (seen.filterMap (·.txId)).Perm (other.filterMap (·.txId)) :=
  mergeSort_isLE_eq_iff compare fun _ _ _ _ => Std.LawfulEqOrd.eq_of_compare

theorem sized_publishedIds (h : Sized (seen.filterMap (·.txId))) : Sized (publishedIds seen) := by
  have hp : (publishedIds seen).Perm (seen.filterMap (·.txId)) := List.mergeSort_perm _ _
  exact ⟨hp.length_eq ▸ h.1, fun id hid => h.2 id (hp.mem_iff.1 hid)⟩

def hashedIds (votes : List BlindVote) : List UInt8 := Layout.bytes (publishedIds votes)

theorem listHash_eq (votes : List BlindVote) : listHash votes = Crypto.hash160 (hashedIds votes) :=
  rfl

/-- Voters who saw the same published votes name them alike, and others do not. -/
theorem listHash_commits_to_ids (seen other : List BlindVote) (hs : Sized (seen.filterMap (·.txId)))
    (ho : Sized (other.filterMap (·.txId))) :
    (hashedIds seen = hashedIds other ↔
        (seen.filterMap (·.txId)).Perm (other.filterMap (·.txId))) ∧
      ((seen.filterMap (·.txId)).Perm (other.filterMap (·.txId)) →
        listHash seen = listHash other) ∧
      (¬Crypto.Collide (hashedIds seen) (hashedIds other) → listHash seen = listHash other →
        (seen.filterMap (·.txId)).Perm (other.filterMap (·.txId))) := by
  have htext : hashedIds seen = hashedIds other ↔
      (seen.filterMap (·.txId)).Perm (other.filterMap (·.txId)) := by
    rw [hashedIds, hashedIds, Layout.bytes_inj (sized_publishedIds hs) (sized_publishedIds ho),
      publishedIds_eq_iff]
  refine ⟨htext, fun h => ?_, fun hc h => ?_⟩
  · rw [listHash_eq, listHash_eq, htext.2 h]
  · rw [listHash_eq, listHash_eq] at h
    exact htext.1 (Crypto.eq_of_hash160_eq hc h)

def sampleSeen : List BlindVote :=
  [⟨[1], some ⟨"b"⟩, 7, []⟩, ⟨[2], none, 7, []⟩, ⟨[3], some ⟨"a"⟩, 7, []⟩, ⟨[1], some ⟨"b"⟩, 7, []⟩]

theorem listHash_commits_to_ids_sampleSeen :
    let other : List BlindVote :=
      [⟨[3], some ⟨"a"⟩, 7, []⟩, ⟨[1], some ⟨"b"⟩, 7, []⟩, ⟨[1], some ⟨"b"⟩, 7, []⟩]
    Sized (sampleSeen.filterMap (·.txId)) ∧ Sized (other.filterMap (·.txId)) ∧
      listHash sampleSeen = listHash other ∧ hashedIds sampleSeen ≠ hashedIds other.dropLast := by
  intro other
  have hs : Sized (sampleSeen.filterMap (·.txId)) := Layout.sized_of_length_lt _ (by decide)
  have ho : Sized (other.filterMap (·.txId)) := Layout.sized_of_length_lt _ (by decide)
  have ht : Sized (other.dropLast.filterMap (·.txId)) := Layout.sized_of_length_lt _ (by decide)
  obtain ⟨-, halike, -⟩ := listHash_commits_to_ids sampleSeen other hs ho
  obtain ⟨htext, -⟩ := listHash_commits_to_ids sampleSeen other.dropLast hs ht
  exact ⟨hs, ho, halike (by decide), fun h => absurd (htext.1 h) (by decide)⟩

end BlindVote
end DaoLedger
