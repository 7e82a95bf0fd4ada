import DaoLedger.Governance.Proposal
import DaoLedger.Ledger.Query
/-!
Merit: voting weight from compensation that the DAO issued. It falls linearly to zero over two
years; heights and amounts come from the ledger, not from what a voter claims.
-/
namespace DaoLedger

inductive MeritError where
  | issuedLater (issuanceHeight currentHeight : Int)
  | negativeAmount (amount : Int)
  | negativeHeight (currentHeight : Int)
  | yearNotPositive (blocksPerYear : Int)
deriving DecidableEq, Inhabited, Repr

def MeritError.message : MeritError → String
  | .issuedLater issuanceHeight currentHeight =>
    s!"issuance height {issuanceHeight} is above the current height {currentHeight}"
  | .negativeAmount amount => s!"amount must not be negative: {amount}"
  | .negativeHeight currentHeight => s!"current height must not be negative: {currentHeight}"
  | .yearNotPositive blocksPerYear => s!"blocks per year must be positive: {blocksPerYear}"

/-- The amount times `1 - age / (2 * blocksPerYear)`, to the nearest integer with halves rounded
up, and zero from two years on. -/
def weightedMerit (amount issuanceHeight currentHeight blocksPerYear : Int) :
    Except MeritError Int :=
  if currentHeight < issuanceHeight then .error (.issuedLater issuanceHeight currentHeight)
  else if amount < 0 then .error (.negativeAmount amount)
  else if currentHeight < 0 then .error (.negativeHeight currentHeight)
  else if blocksPerYear ≤ 0 then .error (.yearNotPositive blocksPerYear)
  else
    let age := currentHeight - issuanceHeight
    let maxAge := 2 * blocksPerYear
    if maxAge ≤ age then .ok 0
    else .ok ((2 * amount * (maxAge - age) + maxAge) / (2 * maxAge))

structure Merit where
  txId : TxId
  chainHeight : UInt32
  amount : UInt64
deriving DecidableEq, Inhabited, Repr

def meritLimit : Nat := 0x7fffffffffffffff

def stakeLimit : Nat := UInt64.size - 1

namespace Ledger

def issuedAmount (l : Ledger) (txId : TxId) : UInt64 :=
  (((l.tx? txId).bind fun tx => tx.outputs.find? (·.type = .issuanceCandidate)).map
    (·.value)).getD 0

def issuedMerits (l : Ledger) : List Merit :=
  (l.issuances.toList.map fun (txId, height) => ⟨txId, height, l.issuedAmount txId⟩).mergeSort
    fun a b => (compareLex (compareOn Merit.chainHeight) (compareOn Merit.txId) a b).isLE

/-- The weight of what a merit names: nothing unless it was issued at `height` or before. -/
def meritWeight (l : Ledger) (height blocksPerYear : UInt32) (merit : Merit) :
    Except MeritError Nat :=
  match l.issuanceHeight? merit.txId with
  | none => .ok 0
  | some issued =>
    if height < issued then .ok 0
    else
      (weightedMerit (min (l.issuedAmount merit.txId).toNat meritLimit : Nat) issued.toNat
        height.toNat blocksPerYear.toNat).map Int.natAbs

def meritStake (l : Ledger) (merits : List Merit) (height blocksPerYear : UInt32) :
    Except MeritError Nat :=
  merits.foldlM (fun total merit => do
    let weight ← l.meritWeight height blocksPerYear merit
    return min (total + weight) stakeLimit) 0

end Ledger

open Layout in
instance : Layout Merit where
  write m := write m.txId ++ write m.chainHeight ++ write m.amount
  read := return ⟨← read, ← read, ← read⟩

open Json (record? needed?)

instance : JsonFormat Merit where
  toJson m := .object [("issuance", .object [("tx_id", toJson m.txId),
    ("chain_height", toJson m.chainHeight), ("amount", toJson m.amount)])]
  ofJson? v := do
    let [some issuance] ← record? ["issuance"] v | none
    let [txId, chainHeight, amount] ← record? ["tx_id", "chain_height", "amount"] issuance | none
    return ⟨← needed? txId, ← needed? chainHeight, ← needed? amount⟩

end DaoLedger
