import DaoLedger.Chain.Block
import DaoLedger.Chain.RawJson
/-!
The JSON form of classified chain data.
-/
namespace DaoLedger

open Json (record? needed? optional? plainCase? oneCase)

instance : JsonFormat OutputType where
  toJson t := Json.ofText t.name
  ofJson? := plainCase? OutputType.all OutputType.name

instance : JsonFormat TxType where
  toJson t := Json.ofText t.name
  ofJson? := plainCase? TxType.all TxType.name

instance : JsonFormat OpReturnType where
  toJson t := Json.ofText t.name
  ofJson? := plainCase? OpReturnType.all OpReturnType.name

instance : JsonFormat Genesis where
  toJson g := .object [("tx_id", toJson g.txId), ("block_height", toJson g.blockHeight),
    ("total_supply", toJson g.totalSupply)]
  ofJson? v := do
    let [txId, blockHeight, totalSupply] ←
      record? ["tx_id", "block_height", "total_supply"] v | none
    return ⟨← needed? txId, ← needed? blockHeight, ← needed? totalSupply⟩

instance : JsonFormat Output where
  toJson o := .object [("index", toJson o.index), ("value", toJson o.value),
    ("tx_id", toJson o.txId), ("pub_key_script", toJson o.script), ("address", toJson o.address),
    ("op_return_data", toJson o.payload), ("block_height", toJson o.blockHeight),
    ("tx_output_type", toJson o.type)]
  ofJson? v := do
    let [index, value, txId, script, address, payload, blockHeight, type] ←
      record? ["index", "value", "tx_id", "pub_key_script", "address", "op_return_data",
        "block_height", "tx_output_type"] v | none
    return ⟨⟨← needed? index, ← needed? value, ← needed? txId, ← optional? script,
      ← optional? address, ← optional? payload, ← needed? blockHeight⟩, ← needed? type⟩

instance : JsonFormat Tx where
  toJson tx := .object [("id", toJson tx.id), ("block_height", toJson tx.blockHeight),
    ("block_hash", toJson tx.blockHash), ("time", toJson tx.time), ("inputs", toJson tx.inputs),
    ("outputs", toJson tx.outputs), ("tx_type", toJson tx.type), ("burnt_fee", toJson tx.burntFee)]
  ofJson? v := do
    let [id, blockHeight, blockHash, time, inputs, outputs, type, burntFee] ←
      record? ["id", "block_height", "block_hash", "time", "inputs", "outputs", "tx_type",
        "burnt_fee"] v | none
    return ⟨← needed? id, ← needed? blockHeight, ← needed? blockHash, ← needed? time,
      ← needed? inputs, ← needed? outputs, ← needed? type, ← needed? burntFee⟩

instance : JsonFormat ParamChange where
  toJson c := .object [("param", toJson c.param), ("value", toJson c.value),
    ("activation_height", toJson c.activationHeight)]
  ofJson? v := do
    let [param, value, activationHeight] ← record? ["param", "value", "activation_height"] v | none
    return ⟨← needed? param, ← needed? value, ← needed? activationHeight⟩

instance : JsonFormat ProposalEvent where
  toJson e := .object [("tx_id", toJson e.txId), ("block_height", toJson e.blockHeight),
    ("op_return_type", toJson e.type), ("hash", toJson e.hash)]
  ofJson? v := do
    let [txId, blockHeight, type, hash] ←
      record? ["tx_id", "block_height", "op_return_type", "hash"] v | none
    return ⟨← needed? txId, ← needed? blockHeight, ← needed? type, ← needed? hash⟩

instance : JsonFormat BlindVoteEvent where
  toJson e := .object [("tx_id", toJson e.txId), ("block_height", toJson e.blockHeight),
    ("hash", toJson e.hash), ("stake", toJson e.stake)]
  ofJson? v := do
    let [txId, blockHeight, hash, stake] ← record? ["tx_id", "block_height", "hash", "stake"] v
      | none
    return ⟨← needed? txId, ← needed? blockHeight, ← needed? hash, ← needed? stake⟩

instance : JsonFormat Event where
  toJson
    | .paramChange c => oneCase "ParamChange" (toJson c)
    | .proposal e => oneCase "Proposal" (toJson e)
    | .blindVote e => oneCase "BlindVote" (toJson e)
  ofJson? v := do
    let (name, some content) ← Json.case? v | none
    match name with
    | "ParamChange" => (ofJson? content).map .paramChange
    | "Proposal" => (ofJson? content).map .proposal
    | "BlindVote" => (ofJson? content).map .blindVote
    | _ => none

instance : JsonFormat Block where
  toJson b := .object [("height", toJson b.height), ("time", toJson b.time),
    ("hash", toJson b.hash), ("previous_block_hash", toJson b.previousHash),
    ("txs", toJson b.txs), ("state_change_events", toJson b.events)]
  ofJson? v := do
    let [height, time, hash, previousHash, txs, events] ←
      record? ["height", "time", "hash", "previous_block_hash", "txs", "state_change_events"] v
      | none
    return ⟨← needed? height, ← needed? time, ← needed? hash, ← needed? previousHash,
      ← needed? txs, ← needed? events⟩

instance : JsonFormat SpentInfo where
  toJson s := .object [("block_height", toJson s.blockHeight), ("tx_id", toJson s.txId),
    ("input_index", toJson s.inputIndex)]
  ofJson? v := do
    let [blockHeight, txId, inputIndex] ← record? ["block_height", "tx_id", "input_index"] v | none
    return ⟨← needed? blockHeight, ← needed? txId, ← needed? inputIndex⟩

end DaoLedger
