import DaoLedger.Chain.RawJson
import DaoLedger.Wire.Layout
/-!
The messages that peers exchange, and the binary layout of what they carry.
-/
namespace DaoLedger

structure BlocksResponse where
  blocks : List RawBlock
  nonce : UInt32
deriving DecidableEq, Inhabited, Repr

inductive Message where
  | getBlocks (fromHeight nonce : UInt32)
  | blocks (response : BlocksResponse)
  | newBlock (block : RawBlock)
deriving DecidableEq, Inhabited, Repr

def Message.name : Message → String
  | .getBlocks _ _ => "GetBlocksRequest"
  | .blocks _ => "GetBlocksResponse"
  | .newBlock _ => "NewBlockBroadcast"

def BlocksResponse.summary (r : BlocksResponse) : String :=
  let span :=
    match r.blocks.head?, r.blocks.getLast? with
    | some first, some last => s!" ({first.height}..={last.height})"
    | _, _ => ""
  "GetBlocksResponse\x7bblocks: " ++ toString r.blocks.length ++ span
    ++ ", request_nonce: " ++ toString r.nonce ++ "\x7d"

section
open Layout

instance : Layout LockingScript where
  write s := write s.kind ++ write s.hex ++ write s.addresses
  read := return ⟨← read, ← read, ← read⟩

instance : Layout Input where
  write i := write i.source.txId ++ write i.source.index ++ write i.pubKey
  read := return ⟨⟨← read, ← read⟩, ← read⟩

instance : Layout RawOutput where
  write o := write o.index ++ write o.value ++ write o.txId ++ write o.script ++ write o.address
    ++ write o.payload ++ write o.blockHeight
  read := return ⟨← read, ← read, ← read, ← read, ← read, ← read, ← read⟩

instance : Layout RawTx where
  write tx := write tx.id ++ write tx.blockHeight ++ write tx.blockHash ++ write tx.time
    ++ write tx.inputs ++ write tx.outputs
  read := return ⟨← read, ← read, ← read, ← read, ← read, ← read⟩

instance : Layout RawBlock where
  write b := write b.height ++ write b.time ++ write b.hash ++ write b.previousHash ++ write b.txs
  read := return ⟨← read, ← read, ← read, ← read, ← read⟩

instance : Layout BlocksResponse where
  write r := write r.blocks ++ write r.nonce
  read := return ⟨← read, ← read⟩

instance : Layout Message where
  write
    | .getBlocks fromHeight nonce => writeCase 0 ++ write fromHeight ++ write nonce
    | .blocks response => writeCase 1 ++ write response
    | .newBlock block => writeCase 2 ++ write block
  read := do
    match ← readCase 3 with
    | 0 => return .getBlocks (← read) (← read)
    | 1 => return .blocks (← read)
    | _ => return .newBlock (← read)

end

open Json (record? needed? oneCase)

instance : JsonFormat BlocksResponse where
  toJson r := .object [("blocks", toJson r.blocks), ("request_nonce", toJson r.nonce)]
  ofJson? v := do
    let [blocks, nonce] ← record? ["blocks", "request_nonce"] v | none
    return ⟨← needed? blocks, ← needed? nonce⟩

instance : JsonFormat Message where
  toJson m := oneCase m.name <|
    match m with
    | .getBlocks fromHeight nonce =>
      .object [("from_block_height", toJson fromHeight), ("nonce", toJson nonce)]
    | .blocks response => toJson response
    | .newBlock block => .object [("block", toJson block)]
  ofJson? v := do
    let (name, some content) ← Json.case? v | none
    match name with
    | "GetBlocksRequest" =>
      let [fromHeight, nonce] ← record? ["from_block_height", "nonce"] content | none
      return .getBlocks (← needed? fromHeight) (← needed? nonce)
    | "GetBlocksResponse" => return .blocks (← ofJson? content)
    | "NewBlockBroadcast" =>
      let [block] ← record? ["block"] content | none
      return .newBlock (← needed? block)
    | _ => none

end DaoLedger
