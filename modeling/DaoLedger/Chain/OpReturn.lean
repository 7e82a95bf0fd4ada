import DaoLedger.Json.Format
/-!
The payloads of OP_RETURN outputs: a type byte, a version byte, then a hash, a hash and a key, or
a lock time.
-/
namespace DaoLedger

inductive OpReturnType where
  | proposal | compensationRequest | blindVote | voteReveal | changeParam | lockup
deriving DecidableEq, Inhabited, Repr

namespace OpReturnType

def all : List OpReturnType :=
  [.proposal, .compensationRequest, .blindVote, .voteReveal, .changeParam, .lockup]

def name : OpReturnType → String
  | .proposal => "Proposal"
  | .compensationRequest => "CompensationRequest"
  | .blindVote => "BlindVote"
  | .voteReveal => "VoteReveal"
  | .changeParam => "ChangeParam"
  | .lockup => "Lockup"

def byte : OpReturnType → UInt8
  | .proposal => 0x10
  | .compensationRequest => 0x11
  | .blindVote => 0x12
  | .voteReveal => 0x13
  | .changeParam => 0x14
  | .lockup => 0x15

def ofByte? (b : UInt8) : Option OpReturnType := all.find? (·.byte == b)

def ofPayload? : List UInt8 → Option OpReturnType
  | [] => none
  | b :: _ => ofByte? b

def unknownMessage (b : UInt8) : String :=
  "unknown op return type byte: 0x" ++ String.ofList (Text.hexByte b)

theorem ofByte?_byte (t : OpReturnType) : ofByte? t.byte = some t := by
  cases t <;> decide

end OpReturnType

namespace OpReturn

def version : UInt8 := 0x01

def hashPayloadLength : Nat := 22

def voteRevealLength : Nat := 54

def lockupLength : Nat := 4

end OpReturn

end DaoLedger
