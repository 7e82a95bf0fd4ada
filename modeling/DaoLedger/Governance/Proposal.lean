import DaoLedger.Wire.Layout
import DaoLedger.Chain.Tx
import DaoLedger.Crypto.Hash
/-!
Proposals, and the payloads by which they and votes are named on the chain. A proposal's hash
covers all that is voted on; the id of the transaction that publishes it comes later.
-/
namespace DaoLedger

namespace OpReturn

def hashPayload (type : OpReturnType) (hash : Hash160) : List UInt8 :=
  type.byte :: version :: hash.toList

def voteReveal (listHash : Hash160) (key : Vector UInt8 32) : List UInt8 :=
  hashPayload .voteReveal listHash ++ key.toList

def lockup (lockTime : UInt16) : List UInt8 :=
  OpReturnType.lockup.byte :: version :: Crypto.bytesBE 2 lockTime.toNat

def payloadHash {α : Type} [Layout α] (a : α) : Hash160 := Crypto.hash160 (Layout.bytes a)

end OpReturn

inductive ProposalKind where
  | generic
  | compensationRequest (requested : UInt64) (address : String)
  | changeParam (param : Param) (value : UInt64)
deriving DecidableEq, Inhabited, Repr

structure ProposalTerms where
  name : String
  link : String
  kind : ProposalKind
  version : UInt8
  creationTime : UInt64
deriving DecidableEq, Inhabited, Repr

structure Proposal extends ProposalTerms where
  txId : Option TxId
deriving DecidableEq, Inhabited, Repr

open Layout in
instance : Layout ProposalKind where
  write
    | .generic => writeCase 0
    | .compensationRequest requested address => writeCase 1 ++ write requested ++ write address
    | .changeParam param value => writeCase 2 ++ write param ++ write value
  read := do
    match ← readCase 3 with
    | 0 => pure .generic
    | 1 => return .compensationRequest (← read) (← read)
    | _ => return .changeParam (← read) (← read)

open Layout in
instance : Layout ProposalTerms where
  write p := write p.name ++ write p.link ++ write p.kind ++ write p.version ++ write p.creationTime
  read := return ⟨← read, ← read, ← read, ← read, ← read⟩

namespace Proposal

def new (name link : String) (kind : ProposalKind) (creationTime : UInt64) : Proposal :=
  ⟨⟨name, link, kind, OpReturn.version, creationTime⟩, none⟩

def opReturnType (p : Proposal) : OpReturnType :=
  match p.kind with
  | .generic => .proposal
  | .compensationRequest _ _ => .compensationRequest
  | .changeParam _ _ => .changeParam

def txType (p : Proposal) : TxType :=
  match p.kind with
  | .generic => .proposal
  | .compensationRequest _ _ => .compensationRequest
  | .changeParam _ _ => .changeParam

def hash (p : Proposal) : Hash160 := OpReturn.payloadHash p.toProposalTerms

def payload (p : Proposal) : List UInt8 := OpReturn.hashPayload p.opReturnType p.hash

def matchesHash (p : Proposal) (hash : Hash160) : Bool := p.hash = hash

end Proposal

open Json (record? needed? optional? oneCase)

instance : JsonFormat ProposalKind where
  toJson
    | .generic => Json.ofText "Generic"
    | .compensationRequest requested address =>
      oneCase "CompensationRequest"
        (.object [("requested_bsq", toJson requested), ("bsq_address", toJson address)])
    | .changeParam param value =>
      oneCase "ChangeParam" (.object [("param", toJson param), ("value", toJson value)])
  ofJson? v := do
    match ← Json.case? v with
    | ("Generic", content) => if Json.isPlain content then some .generic else none
    | ("CompensationRequest", some content) =>
      let [requested, address] ← record? ["requested_bsq", "bsq_address"] content | none
      return .compensationRequest (← needed? requested) (← needed? address)
    | ("ChangeParam", some content) =>
      let [param, value] ← record? ["param", "value"] content | none
      return .changeParam (← needed? param) (← needed? value)
    | _ => none

instance : JsonFormat Proposal where
  toJson p := .object [("name", toJson p.name), ("link", toJson p.link), ("kind", toJson p.kind),
    ("version", toJson p.version), ("creation_time", toJson p.creationTime),
    ("tx_id", toJson p.txId)]
  ofJson? v := do
    let [name, link, kind, version, creationTime, txId] ←
      record? ["name", "link", "kind", "version", "creation_time", "tx_id"] v | none
    return ⟨⟨← needed? name, ← needed? link, ← needed? kind, ← needed? version,
      ← needed? creationTime⟩, ← optional? txId⟩

end DaoLedger
