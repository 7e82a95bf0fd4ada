import DaoLedger.Governance.Param
/-!
Governance cycles. A cycle is a sequence of phases measured in blocks from its first block on;
heights end at `heightLimit`, where all sums stop.
-/
namespace DaoLedger

inductive Phase where
  | proposal | break1 | blindVote | break2 | voteReveal | break3 | result
deriving DecidableEq, Inhabited, Repr

namespace Phase

def all : List Phase := [.proposal, .break1, .blindVote, .break2, .voteReveal, .break3, .result]

def name : Phase → String
  | .proposal => "Proposal"
  | .break1 => "Break1"
  | .blindVote => "BlindVote"
  | .break2 => "Break2"
  | .voteReveal => "VoteReveal"
  | .break3 => "Break3"
  | .result => "Result"

def durationParam : Phase → Param
  | .proposal => .phaseProposal
  | .break1 => .phaseBreak1
  | .blindVote => .phaseBlindVote
  | .break2 => .phaseBreak2
  | .voteReveal => .phaseVoteReveal
  | .break3 => .phaseBreak3
  | .result => .phaseResult

end Phase

def heightLimit : Nat := UInt32.size - 1

/-- A sum of heights, kept within the limit. -/
def heightSum (a b : Nat) : Nat := min (a + b) heightLimit

structure Cycle where
  firstBlock : Nat
  phases : List (Phase × Nat)
deriving DecidableEq, Inhabited, Repr

namespace Cycle

def duration (c : Cycle) : Nat := c.phases.foldl (fun total p => heightSum total p.2) 0

def lastBlock (c : Cycle) : Nat := heightSum c.firstBlock c.duration - 1

def contains (c : Cycle) (height : Nat) : Bool := c.firstBlock ≤ height && height ≤ c.lastBlock

/-- The first phase that ends above `height`, the phases running from `start` on. -/
def phaseFrom? (height start : Nat) : List (Phase × Nat) → Option Phase
  | [] => none
  | (phase, length) :: phases =>
    if height < heightSum start length then some phase
    else phaseFrom? height (heightSum start length) phases

def phaseAt? (c : Cycle) (height : Nat) : Option Phase :=
  if height < c.firstBlock then none else phaseFrom? height c.firstBlock c.phases

def spanFrom? (phase : Phase) (start : Nat) : List (Phase × Nat) → Option (Nat × Nat)
  | [] => none
  | (p, length) :: phases =>
    if p = phase then some (start, length) else spanFrom? phase (heightSum start length) phases

def firstBlockOf? (c : Cycle) (phase : Phase) : Option Nat :=
  (spanFrom? phase c.firstBlock c.phases).map (·.1)

/-- A phase without blocks has no last block. -/
def lastBlockOf? (c : Cycle) (phase : Phase) : Option Nat :=
  (spanFrom? phase c.firstBlock c.phases).bind fun (start, length) =>
    if length = 0 then none else some (heightSum start (length - 1))

end Cycle

open Json (record? needed?)

instance : JsonFormat Phase where
  toJson p := Json.ofText p.name
  ofJson? := Json.plainCase? Phase.all Phase.name

/-- Written together with what follows from the phases, which is not read. -/
instance : JsonFormat Cycle where
  toJson c := .object [("first_block", toJson c.firstBlock), ("phases", toJson c.phases),
    ("duration", toJson c.duration), ("last_block", toJson c.lastBlock)]
  ofJson? v := do
    let [firstBlock, phases] ← record? ["first_block", "phases"] v | none
    return ⟨← needed? firstBlock, ← needed? phases⟩

end DaoLedger
