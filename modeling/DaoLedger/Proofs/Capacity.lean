import DaoLedger.Proofs.Batches
import DaoLedger.Proofs.Frames
import DaoLedger.Proofs.MeritStake
import DaoLedger.Proofs.Reordering
import DaoLedger.Sync.Serving
/-!
How many blocks a response can carry. Main statement: a response is sent just when its blocks fit one
frame together, and they take no more bytes than the blocks that were applied.
-/
namespace DaoLedger

/-! ### Sizes -/

namespace Layout

def size {α : Type} [Layout α] (a : α) : Nat := (bytes a).length

section
variable {α β : Type} [Layout α] [Layout β]

theorem size_prod (a : α) (b : β) : size (a, b) = size a + size b := by
  rw [size, bytes_prod, List.length_append, size, size]

theorem size_list (as : List α) : size as = 8 + total (as.map size) := by
  have hitems : (as.flatMap bytes).length = total (as.map size) := by
    induction as with
    | nil => rfl
    | cons a as ih => rw [List.flatMap_cons, List.length_append, ih, List.map_cons, total, size]
  rw [size, bytes_list, List.length_append, Crypto.length_bytesLE, hitems]

theorem size_none : size (none : Option α) = 1 := rfl

theorem size_some (a : α) : size (some a) = 1 + size a := by
  rw [size, bytes_some, List.length_cons, Nat.add_comm, size]

end

theorem size_uint32 (n : UInt32) : size n = 4 := by
  have h : bytes n = Crypto.bytesLE 4 n.toNat := toList_writeNat 4 n.toNat
  rw [size, h, Crypto.length_bytesLE]

theorem size_uint64 (n : UInt64) : size n = 8 := by
  have h : bytes n = Crypto.bytesLE 8 n.toNat := toList_writeNat 8 n.toNat
  rw [size, h, Crypto.length_bytesLE]

theorem size_string (s : String) : size s = 8 + s.utf8ByteSize := by
  rw [size, bytes_string, List.length_append, Crypto.length_bytesLE, Array.length_toList,
    ByteArray.size_data]
  rfl

theorem size_txId (id : TxId) : size id = 8 + id.text.utf8ByteSize := size_string id.text

theorem size_blockHash (hash : BlockHash) : size hash = 8 + hash.text.utf8ByteSize :=
  size_string hash.text

theorem size_script (s : LockingScript) : size s = size (s.kind, s.hex, s.addresses) := by
  have h : write s = write (s.kind, s.hex, s.addresses) := by
    simp only [write_prod, ← ByteArray.append_assoc]
    rfl
  rw [size, bytes, h]
  rfl

theorem size_rawOutput (o : RawOutput) :
    size o = size (o.index, o.value, o.txId, o.script, o.address, o.payload, o.blockHeight) := by
  have h : write o =
      write (o.index, o.value, o.txId, o.script, o.address, o.payload, o.blockHeight) := by
    simp only [write_prod, ← ByteArray.append_assoc]
    rfl
  rw [size, bytes, h]
  rfl

theorem size_rawTx (tx : RawTx) :
    size tx = size (tx.id, tx.blockHeight, tx.blockHash, tx.time, tx.inputs, tx.outputs) := by
  have h : write tx =
      write (tx.id, tx.blockHeight, tx.blockHash, tx.time, tx.inputs, tx.outputs) := by
    simp only [write_prod, ← ByteArray.append_assoc]
    rfl
  rw [size, bytes, h]
  rfl

theorem size_rawBlock (b : RawBlock) :
    size b = size (b.height, b.time, b.hash, b.previousHash, b.txs) := by
  have h : write b = write (b.height, b.time, b.hash, b.previousHash, b.txs) := by
    simp only [write_prod, ← ByteArray.append_assoc]
    rfl
  rw [size, bytes, h]
  rfl

theorem size_response (r : BlocksResponse) : size r = 12 + total (r.blocks.map size) := by
  have h : size r = size (r.blocks, r.nonce) := rfl
  rw [h, size_prod, size_list, size_uint32]
  omega

/-- Heights take their full width, so a transaction takes as many bytes at any height. -/
theorem size_placed (tx : RawTx) (height : UInt32) : size (tx.placed height) = size tx := by
  have houtput (o : RawOutput) : size { o with blockHeight := height } = size o := by
    simp only [size_rawOutput, size_prod, size_uint32]
  simp only [size_rawTx, size_prod, size_list, size_uint32, RawTx.placed, List.map_map,
    Function.comp_def, houtput]

end Layout

namespace Frame
open Layout (size)

theorem size_body_blocks (r : BlocksResponse) :
    (body (.blocks r)).size = total (r.blocks.map size) + 18 := by
  have hresponse := Layout.size_response r
  rw [Layout.size] at hresponse
  rw [size_body, Layout.bytes_blocks, List.length_append, Crypto.length_bytesLE, hresponse]
  omega

theorem size_body_newBlock (b : RawBlock) : (body (.newBlock b)).size = size b + 6 := by
  rw [size_body, Layout.bytes_newBlock, List.length_append, Crypto.length_bytesLE, size]
  omega

theorem encode_isOk_iff {m : Message} :
    (∃ frame, encode m = .ok frame) ↔ (body m).size ≤ maxSize := by
  constructor
  · rintro ⟨frame, h⟩
    exact (encode_eq_ok h).1
  · exact fun h => ⟨_, encode_of_le h⟩

end Frame

/-! ### What applying stores -/

namespace Ledger
open Layout (size)
variable {l m : Ledger} {tx : RawTx} {height : UInt32} {c : Classified}

def wireSize (l : Ledger) : Nat := total (l.chain.map fun b => size b.raw)

theorem size_raw_opened (raw : RawBlock) :
    size raw = size raw.opened.raw + total (raw.txs.map size) := by
  simp only [Layout.size_rawBlock, Layout.size_prod, Layout.size_list, RawBlock.opened, Block.raw,
    List.map_nil, total]
  omega

theorem size_raw_append (b : Block) (tx : Tx) (events : List Event) :
    size { b with txs := b.txs ++ [tx], events }.raw = size b.raw + size tx.raw := by
  simp only [Layout.size_rawBlock, Layout.size_prod, Layout.size_list, Block.raw, List.map_append,
    total_append, List.map_cons, List.map_nil, total]
  omega

theorem wireSize_adopted_le (hc : l.classify tx height = .ok c) :
    (l.adopted c).wireSize ≤ l.wireSize + size tx := by
  have hraw : size c.tx.raw = size tx := by
    obtain hraw | hraw := raw_of_classify hc
    · rw [hraw]
    · rw [hraw, Layout.size_placed]
  rw [wireSize, wireSize, adopted]
  cases l.chain with
  | nil => exact Nat.zero_le _
  | cons tip older =>
    rw [List.modifyHead_cons, List.map_cons, List.map_cons, total, total, size_raw_append, hraw]
    omega

theorem EntersAll.wireSize_le {txs : List RawTx} (h : EntersAll height l txs m) :
    m.wireSize ≤ l.wireSize + total (txs.map size) := by
  induction h with
  | nil l => exact Nat.le_add_right ..
  | cons hfirst _ ih =>
    rw [List.map_cons, total]
    cases hfirst with
    | skip hc hb => omega
    | adopt hc hb ht =>
      have hadopted := wireSize_adopted_le hc
      omega

theorem wireSize_apply_le (l : Ledger) (raw : RawBlock) :
    (l.apply raw).1.wireSize ≤ l.wireSize + size raw := by
  have hchain := l.chain_apply raw
  cases hr : (l.apply raw).2.toOption with
  | none =>
    rw [hr] at hchain
    rw [wireSize, hchain]
    exact Nat.le_add_right ..
  | some b =>
    have happly : l.apply raw = ((l.apply raw).1, .ok b) :=
      Prod.ext rfl (Result.toOption_eq_some.1 hr)
    obtain ⟨-, hall, -⟩ := apply_eq_ok.1 happly
    have hopened : (l.opened raw).wireSize = size raw.opened.raw + l.wireSize := rfl
    have hle := hall.wireSize_le
    rw [size_raw_opened]
    omega

theorem wireSize_applyAll_le (l : Ledger) (raws : List RawBlock) :
    (l.applyAll raws).wireSize ≤ l.wireSize + total (raws.map size) := by
  induction raws generalizing l with
  | nil => exact Nat.le_add_right ..
  | cons raw raws ih =>
    have hfirst := l.wireSize_apply_le raw
    have hrest := ih (l.apply raw).1
    rw [List.map_cons, total]
    change ((l.apply raw).1.applyAll raws).wireSize ≤ _
    omega

theorem size_blocksFrom_le (l : Ledger) (fromHeight : UInt32) :
    total ((l.blocksFrom fromHeight).map fun b => size b.raw) ≤ l.wireSize := by
  rw [blocksFrom, total_perm ((List.reverse_perm _).map _)]
  exact total_le_of_sublist ((List.takeWhile_sublist _).map _)

/-- A response is one frame, so it is sent just when its blocks fit one frame together. -/
theorem response_encodes_iff (g : Genesis) (raws : List RawBlock) (fromHeight nonce : UInt32) :
    let l := (Ledger.new g).applyAll raws
    let needed := total ((l.blocksFrom fromHeight).map fun b => size b.raw) + 18
    ((∃ frame, Frame.encode (.blocks (l.response fromHeight nonce)) = .ok frame) ↔
        needed ≤ Frame.maxSize) ∧
      (Frame.maxSize < needed →
        Frame.encode (.blocks (l.response fromHeight nonce)) = .error (.tooLarge needed)) ∧
      needed ≤ total (raws.map size) + 18 := by
  intro l needed
  have hsize : (Frame.body (.blocks (l.response fromHeight nonce))).size = needed := by
    rw [Frame.size_body_blocks, response, List.map_map]
    rfl
  refine ⟨?_, fun h => ?_, ?_⟩
  · rw [Frame.encode_isOk_iff, hsize]
  · rw [← hsize] at h ⊢
    exact Frame.encode_of_lt h
  · have hfrom := l.size_blocksFrom_le fromHeight
    have hall : l.wireSize ≤ 0 + total (raws.map size) := (Ledger.new g).wireSize_applyAll_le raws
    omega

theorem response_encodes_sample :
    let raws := [Sample.first, Sample.second]
    let l := (Ledger.new Sample.genesis).applyAll raws
    ∃ frame, Frame.encode (.blocks (l.response 11 7)) = .ok frame := by
  intro raws l
  obtain ⟨hiff, -, hle⟩ := response_encodes_iff Sample.genesis raws 11 7
  have hsum : total (raws.map size) + 18 ≤ Frame.maxSize := by decide +kernel
  exact hiff.2 (Nat.le_trans hle hsum)

end Ledger

/-! ### A block that can be broadcast and not be sent in a response -/

namespace Sample
open Layout (size)

def shared (addresses : List String) : RawTx :=
  ⟨⟨"g"⟩, 10, ⟨"a"⟩, 0, [], [⟨0, 1000, ⟨"g"⟩, some ⟨"", "", addresses⟩, none, none, 10⟩]⟩

def sharing (addresses : List String) : RawBlock := ⟨10, 0, ⟨"a"⟩, ⟨"0"⟩, [shared addresses]⟩

theorem size_sharing (addresses : List String) :
    size (sharing addresses) = 136 + total (addresses.map size) := by
  simp only [sharing, shared, Layout.size_rawBlock, Layout.size_rawTx, Layout.size_rawOutput,
    Layout.size_script, Layout.size_prod, Layout.size_list, Layout.size_some, Layout.size_none,
    Layout.size_uint32, Layout.size_uint64, Layout.size_txId, Layout.size_blockHash,
    Layout.size_string, List.map_cons, List.map_nil, total]
  rw [show "a".utf8ByteSize = 1 from rfl, show "0".utf8ByteSize = 1 from rfl,
    show "g".utf8ByteSize = 1 from rfl, show "".utf8ByteSize = 0 from rfl]
  omega

theorem size_sharing_replicate (count : Nat) :
    size (sharing (List.replicate count "")) = 136 + 8 * count := by
  have htotal (n : Nat) : total (List.replicate n 8) = 8 * n := by
    induction n with
    | zero => rfl
    | succ n ih =>
      rw [List.replicate_succ, total, ih]
      omega
  have hempty : size "" = 8 := rfl
  rw [size_sharing, List.map_replicate, hempty, htotal]

theorem response_sharing (addresses : List String) (nonce : UInt32) :
    ((Ledger.new genesis).applyAll [sharing addresses]).response 10 nonce =
      ⟨[sharing addresses], nonce⟩ := by
  let raw := sharing addresses
  let l := (Ledger.new genesis).opened raw
  let c : Classified := ⟨(shared addresses).genesis, none, none⟩
  have hc : l.classify (shared addresses) 10 = .ok c := Ledger.classify_eq_ok.2 (.inl ⟨rfl, rfl, rfl⟩)
  have ht : l.Takes c.tx := ⟨⟨raw.opened, rfl, rfl⟩, by simp [l, Ledger.opened, Ledger.new]⟩
  have hheight : (10 : UInt32).toNat < heightLimit := by decide
  have hend : (Ledger.new genesis).endless raw = false := Ledger.not_endless_of_lt hheight
  have hf : (Ledger.new genesis).Opens raw := ⟨⟨rfl, rfl⟩, hend⟩
  obtain ⟨b, hchain, happly⟩ := Ledger.apply_of_entersAll hf (.cons (.adopt hc rfl ht) (.nil _))
  have hledger : (Ledger.new genesis).applyAll [raw] = l.adopted c := congrArg Prod.fst happly
  rw [hledger]
  rfl

end Sample

theorem Ledger.response_exceeds_frame :
    ¬∀ (g : Genesis) (raws : List RawBlock),
      (∀ raw ∈ raws, ∃ frame, Frame.encode (.newBlock raw) = .ok frame) →
        ∀ fromHeight nonce, ∃ frame,
          Frame.encode (.blocks (((Ledger.new g).applyAll raws).response fromHeight nonce)) =
            .ok frame := by
  intro h
  -- The addresses are named by the size they give, so that nothing counts them out.
  obtain ⟨addresses, hsize⟩ : ∃ addresses, Layout.size (Sample.sharing addresses) = 16777200 :=
    ⟨List.replicate 2097133 "", Sample.size_sharing_replicate 2097133⟩
  have hmax : Frame.maxSize = 16777216 := rfl
  have hfits : ∃ frame, Frame.encode (.newBlock (Sample.sharing addresses)) = .ok frame := by
    rw [Frame.encode_isOk_iff, Frame.size_body_newBlock, hsize, hmax]
    decide
  have hsent := h Sample.genesis [Sample.sharing addresses] (by simpa using hfits) 10 7
  rw [Sample.response_sharing, Frame.encode_isOk_iff, Frame.size_body_blocks, List.map_cons,
    List.map_nil, total, total, hsize, hmax] at hsent
  exact absurd hsent (by decide)

end DaoLedger
