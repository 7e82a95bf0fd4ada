import DaoLedger.Json.Format
/-!
The parameters that the DAO votes on, their defaults and their bounds.
-/
namespace DaoLedger

inductive Param where
  | proposalFee | blindVoteFee | compensationRequestMinAmount | compensationRequestMaxAmount
  | quorumProposal | quorumCompRequest | quorumChangeParam
  | thresholdProposal | thresholdCompRequest | thresholdChangeParam
  | lockTimeMin | lockTimeMax
  | phaseProposal | phaseBreak1 | phaseBlindVote | phaseBreak2 | phaseVoteReveal | phaseBreak3
  | phaseResult
deriving DecidableEq, Inhabited, Repr

namespace Param

def all : List Param :=
  [.proposalFee, .blindVoteFee, .compensationRequestMinAmount, .compensationRequestMaxAmount,
    .quorumProposal, .quorumCompRequest, .quorumChangeParam,
    .thresholdProposal, .thresholdCompRequest, .thresholdChangeParam,
    .lockTimeMin, .lockTimeMax,
    .phaseProposal, .phaseBreak1, .phaseBlindVote, .phaseBreak2, .phaseVoteReveal, .phaseBreak3,
    .phaseResult]

/-- Amounts are in satoshi, thresholds in basis points of the stake, durations in blocks. -/
def default : Param → Nat
  | .proposalFee | .blindVoteFee => 200
  | .compensationRequestMinAmount => 1000
  | .compensationRequestMaxAmount => 10000000
  | .quorumProposal | .quorumCompRequest | .quorumChangeParam => 10000000
  | .thresholdProposal | .thresholdCompRequest => 5000
  | .thresholdChangeParam => 7500
  | .lockTimeMin => 6
  | .lockTimeMax => 4320
  | .phaseProposal => 3600
  | .phaseBreak1 => 150
  | .phaseBlindVote => 600
  | .phaseBreak2 | .phaseBreak3 => 10
  | .phaseVoteReveal => 300
  | .phaseResult => 2

def isPhaseDuration : Param → Bool
  | .phaseProposal | .phaseBreak1 | .phaseBlindVote | .phaseBreak2 | .phaseVoteReveal
  | .phaseBreak3 | .phaseResult => true
  | _ => false

def maxPhaseDuration : Nat := 105120

def max? (p : Param) : Option Nat := if p.isPhaseDuration then some maxPhaseDuration else none

def name : Param → String
  | .proposalFee => "PROPOSAL_FEE"
  | .blindVoteFee => "BLIND_VOTE_FEE"
  | .compensationRequestMinAmount => "COMPENSATION_REQUEST_MIN_AMOUNT"
  | .compensationRequestMaxAmount => "COMPENSATION_REQUEST_MAX_AMOUNT"
  | .quorumProposal => "QUORUM_PROPOSAL"
  | .quorumCompRequest => "QUORUM_COMP_REQUEST"
  | .quorumChangeParam => "QUORUM_CHANGE_PARAM"
  | .thresholdProposal => "THRESHOLD_PROPOSAL"
  | .thresholdCompRequest => "THRESHOLD_COMP_REQUEST"
  | .thresholdChangeParam => "THRESHOLD_CHANGE_PARAM"
  | .lockTimeMin => "LOCK_TIME_MIN"
  | .lockTimeMax => "LOCK_TIME_MAX"
  | .phaseProposal => "PHASE_PROPOSAL"
  | .phaseBreak1 => "PHASE_BREAK1"
  | .phaseBlindVote => "PHASE_BLIND_VOTE"
  | .phaseBreak2 => "PHASE_BREAK2"
  | .phaseVoteReveal => "PHASE_VOTE_REVEAL"
  | .phaseBreak3 => "PHASE_BREAK3"
  | .phaseResult => "PHASE_RESULT"

def label : Param → String
  | .proposalFee => "ProposalFee"
  | .blindVoteFee => "BlindVoteFee"
  | .compensationRequestMinAmount => "CompensationRequestMinAmount"
  | .compensationRequestMaxAmount => "CompensationRequestMaxAmount"
  | .quorumProposal => "QuorumProposal"
  | .quorumCompRequest => "QuorumCompRequest"
  | .quorumChangeParam => "QuorumChangeParam"
  | .thresholdProposal => "ThresholdProposal"
  | .thresholdCompRequest => "ThresholdCompRequest"
  | .thresholdChangeParam => "ThresholdChangeParam"
  | .lockTimeMin => "LockTimeMin"
  | .lockTimeMax => "LockTimeMax"
  | .phaseProposal => "PhaseProposal"
  | .phaseBreak1 => "PhaseBreak1"
  | .phaseBlindVote => "PhaseBlindVote"
  | .phaseBreak2 => "PhaseBreak2"
  | .phaseVoteReveal => "PhaseVoteReveal"
  | .phaseBreak3 => "PhaseBreak3"
  | .phaseResult => "PhaseResult"

def ofName? (s : String) : Option Param := all.find? (·.name == s)

def unknownMessage (s : String) : String := "unknown param: " ++ s

end Param

instance : JsonFormat Param where
  toJson p := Json.ofText p.label
  ofJson? := Json.plainCase? Param.all Param.label

end DaoLedger
