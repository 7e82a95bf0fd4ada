import DaoLedger.Governance.BlindVote
import DaoLedger.Proofs.Layouts
import Mathlib.Data.List.GetD
/-!
Binary layouts of votes, merits and proposals. Main statement: each of them is read back just as it
was written, so that different values have different bytes.
-/
namespace DaoLedger.Layout

def Tagged.ofCases {α : Type} [Layout α] [DecidableEq α] (all : List α) (other : α)
    (hmem : ∀ a, a ∈ all) (hn : all.Nodup) (hlen : all.length ≤ Nat.pow 256 4)
    (hread : (read : Take α) = readCase all.length >>= fun n => pure (all.getD n other))
    (hwrite : ∀ a : α, write a = writeCase (all.idxOf a)) : Tagged α where
  count := all.length
  index := all.idxOf
  content _ := []
  Sized _ := True
  readOn n := pure (all.getD n other)
  count_le := hlen
  read_eq := hread
  bytes_eq a := by rw [bytes, hwrite, writeCase, toList_writeNat, List.append_nil]
  index_lt a := List.idxOf_lt_length_of_mem (hmem a)
  readOn_eq_ok n bs a rest hlt := by
    rw [run_pure_eq_ok, Prod.mk.injEq, List.getD_eq_getElem all other hlt]
    constructor
    · rintro ⟨rfl, rfl⟩
      exact ⟨hn.idxOf_getElem n hlt, trivial, rfl⟩
    · rintro ⟨rfl, -, rfl⟩
      exact ⟨(List.getElem_idxOf hlt).symm, rfl⟩
  sized_of_content _ _ := trivial

instance : Exact Vote :=
  .ofTagged <| .ofCases Vote.all .accept (fun v => by cases v <;> decide) (by decide) (by decide)
    rfl fun _ => rfl

instance : Exact Param :=
  .ofTagged <| .ofCases Param.all .proposalFee (fun p => by cases p <;> decide) (by decide)
    (by decide) rfl fun _ => rfl

instance : Exact CastVote :=
  .through (fun (proposalTxId, vote) => ⟨proposalTxId, vote⟩) (fun v => (v.proposalTxId, v.vote))
    (fun _ => rfl) (fun _ => rfl) (by simp only [read_prod, map_bind, map_pure]; rfl) fun _ => rfl

instance : Exact Merit :=
  .through (fun (txId, chainHeight, amount) => ⟨txId, chainHeight, amount⟩)
    (fun m => (m.txId, m.chainHeight, m.amount)) (fun _ => rfl) (fun _ => rfl)
    (by simp only [read_prod, map_bind, bind_assoc, pure_bind, map_pure]; rfl)
    fun _ => by simp only [write_prod, ← ByteArray.append_assoc]; rfl

/-! ### Proposals -/

def proposalKindCase : ProposalKind → Nat
  | .generic => 0
  | .compensationRequest _ _ => 1
  | .changeParam _ _ => 2

def proposalKindContent : ProposalKind → List UInt8
  | .generic => []
  | .compensationRequest requested address => bytes (requested, address)
  | .changeParam param value => bytes (param, value)

theorem bytes_proposalKind (k : ProposalKind) :
    bytes k = Crypto.bytesLE 4 (proposalKindCase k) ++ proposalKindContent k := by
  cases k with
  | generic => rfl
  | compensationRequest requested address => exact toList_writeCase_pair 1 requested address
  | changeParam param value => exact toList_writeCase_pair 2 param value

def readProposalKind : Nat → Take ProposalKind
  | 0 => pure .generic
  | 1 => (fun (requested, address) => .compensationRequest requested address) <$> read
  | _ => (fun (param, value) => .changeParam param value) <$> read

theorem read_proposalKind : (read : Take ProposalKind) = readCase 3 >>= readProposalKind := by
  simp only [funext readProposalKind.eq_def, read_prod, map_bind, map_pure]
  rfl

def proposalKindSized : ProposalKind → Prop
  | .compensationRequest _ address => Sized address
  | .generic | .changeParam _ _ => True

theorem proposalKindCase_lt (k : ProposalKind) : proposalKindCase k < 3 := by
  cases k <;> simp [proposalKindCase]

theorem readProposalKind_eq_ok {n : Nat} {bs : List UInt8} {k : ProposalKind} {rest : List UInt8}
    (hn : n < 3) : (readProposalKind n).run bs = .ok (k, rest) ↔
      proposalKindCase k = n ∧ proposalKindSized k ∧ bs = proposalKindContent k ++ rest := by
  obtain rfl | rfl | rfl : n = 0 ∨ n = 1 ∨ n = 2 := by omega
  · refine run_pure_eq_ok.trans ?_
    cases k <;> simp [proposalKindCase, proposalKindContent, proposalKindSized, eq_comm]
  · refine run_map_read_eq_ok.trans ⟨?_, fun h => ?_⟩
    · rintro ⟨request, hs, rfl, rfl⟩
      exact ⟨rfl, hs.2, rfl⟩
    · obtain ⟨hcase, hs, rfl⟩ := h
      cases k with
      | compensationRequest requested address =>
        exact ⟨(requested, address), ⟨trivial, hs⟩, rfl, rfl⟩
      | generic | changeParam param value => cases hcase
  · refine run_map_read_eq_ok.trans ⟨?_, fun h => ?_⟩
    · rintro ⟨change, -, rfl, rfl⟩
      exact ⟨rfl, trivial, rfl⟩
    · obtain ⟨hcase, -, rfl⟩ := h
      cases k with
      | changeParam param value => exact ⟨(param, value), ⟨trivial, trivial⟩, rfl, rfl⟩
      | generic | compensationRequest requested address => cases hcase

theorem proposalKindSized_of_content (k : ProposalKind)
    (h : (proposalKindContent k).length < UInt64.size) : proposalKindSized k := by
  cases k with
  | compensationRequest requested address => exact (sized_of_length_lt (requested, address) h).2
  | generic | changeParam param value => trivial

def taggedProposalKind : Tagged ProposalKind where
  count := 3
  index := proposalKindCase
  content := proposalKindContent
  Sized := proposalKindSized
  readOn := readProposalKind
  count_le := three_le_count
  read_eq := read_proposalKind
  bytes_eq := bytes_proposalKind
  index_lt := proposalKindCase_lt
  readOn_eq_ok _ _ _ _ := readProposalKind_eq_ok
  sized_of_content := proposalKindSized_of_content

instance : Exact ProposalKind := .ofTagged taggedProposalKind

instance : Exact ProposalTerms :=
  .through
    (fun (name, link, kind, version, creationTime) => ⟨name, link, kind, version, creationTime⟩)
    (fun p => (p.name, p.link, p.kind, p.version, p.creationTime)) (fun _ => rfl) (fun _ => rfl)
    (by simp only [read_prod, map_bind, bind_assoc, pure_bind, map_pure]; rfl)
    fun _ => by simp only [write_prod, ← ByteArray.append_assoc]; rfl

end DaoLedger.Layout
