import DaoLedger.Chain.Raw
/-!
The JSON form of chain data.
-/
namespace DaoLedger

open Json (record? needed? optional?)

instance : JsonFormat LockingScript where
  toJson s := .object [("script_type", toJson s.kind), ("hex", toJson s.hex),
    ("addresses", toJson s.addresses)]
  ofJson? v := do
    let [kind, hex, addresses] ← record? ["script_type", "hex", "addresses"] v | none
    return ⟨← needed? kind, ← needed? hex, ← needed? addresses⟩

instance : JsonFormat Input where
  toJson i := .object [("connected_tx_output_tx_id", toJson i.source.txId),
    ("connected_tx_output_index", toJson i.source.index), ("pub_key", toJson i.pubKey)]
  ofJson? v := do
    let [txId, index, pubKey] ←
      record? ["connected_tx_output_tx_id", "connected_tx_output_index", "pub_key"] v | none
    return ⟨⟨← needed? txId, ← needed? index⟩, ← optional? pubKey⟩

instance : JsonFormat RawOutput where
  toJson o := .object [("index", toJson o.index), ("value", toJson o.value),
    ("tx_id", toJson o.txId), ("pub_key_script", toJson o.script), ("address", toJson o.address),
    ("op_return_data", toJson o.payload), ("block_height", toJson o.blockHeight)]
  ofJson? v := do
    let [index, value, txId, script, address, payload, blockHeight] ←
      record? ["index", "value", "tx_id", "pub_key_script", "address", "op_return_data",
        "block_height"] v | none
    return ⟨← needed? index, ← needed? value, ← needed? txId, ← optional? script,
      ← optional? address, ← optional? payload, ← needed? blockHeight⟩

instance : JsonFormat RawTx where
  toJson tx := .object [("id", toJson tx.id), ("block_height", toJson tx.blockHeight),
    ("block_hash", toJson tx.blockHash), ("time", toJson tx.time), ("inputs", toJson tx.inputs),
    ("outputs", toJson tx.outputs)]
  ofJson? v := do
    let [id, blockHeight, blockHash, time, inputs, outputs] ←
      record? ["id", "block_height", "block_hash", "time", "inputs", "outputs"] v | none
    return ⟨← needed? id, ← needed? blockHeight, ← needed? blockHash, ← needed? time,
      ← needed? inputs, ← needed? outputs⟩

instance : JsonFormat RawBlock where
  toJson b := .object [("height", toJson b.height), ("time", toJson b.time),
    ("hash", toJson b.hash), ("previous_block_hash", toJson b.previousHash), ("txs", toJson b.txs)]
  ofJson? v := do
    let [height, time, hash, previousHash, txs] ←
      record? ["height", "time", "hash", "previous_block_hash", "txs"] v | none
    return ⟨← needed? height, ← needed? time, ← needed? hash, ← needed? previousHash,
      ← needed? txs⟩

end DaoLedger
