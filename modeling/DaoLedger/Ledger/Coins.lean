import DaoLedger.Chain.Tx
/-!
The outputs of the ledger: those unspent, the input that spent each of the others, and the type
of every output.
-/
namespace DaoLedger

structure Coins where
  unspent : Map OutputKey Output
  spent : Map OutputKey SpentInfo
  types : Map OutputKey OutputType

namespace Coins

def empty : Coins := ⟨∅, ∅, ∅⟩

/-- Spending what is not unspent changes nothing. -/
def spend (coins : Coins) (key : OutputKey) (info : SpentInfo) : Coins :=
  if key ∈ coins.unspent then
    { coins with unspent := coins.unspent.erase key, spent := coins.spent.insert key info }
  else coins

def spendAll (coins : Coins) (blockHeight : UInt32) (txId : TxId) : Nat → List Input → Coins
  | _, [] => coins
  | i, input :: inputs =>
    (coins.spend input.source ⟨blockHeight, txId, i⟩).spendAll blockHeight txId (i + 1) inputs

def create (coins : Coins) (o : Output) : Coins :=
  { coins with
    unspent := coins.unspent.insert o.key o
    types := coins.types.insert o.key o.type }

def createAll (coins : Coins) (outputs : List Output) : Coins := outputs.foldl create coins

def forget (coins : Coins) (o : Output) : Coins :=
  { coins with unspent := coins.unspent.erase o.key, types := coins.types.erase o.key }

def forgetAll (coins : Coins) (outputs : List Output) : Coins := outputs.foldl forget coins

def spentBy (coins : Coins) (key : OutputKey) (txId : TxId) (i : Nat) : Bool :=
  match coins.spent[key]? with
  | some info => info.txId = txId && info.inputIndex = i
  | none => false

/-- Takes back what input `i` spent; `source?` finds the output. -/
def unspend (coins : Coins) (source? : OutputKey → Option Output) (txId : TxId) (i : Nat)
    (key : OutputKey) : Coins :=
  if coins.spentBy key txId i then
    { coins with
      spent := coins.spent.erase key
      unspent :=
        match source? key with
        | some o => coins.unspent.insert key o
        | none => coins.unspent }
  else coins

def unspendAll (coins : Coins) (source? : OutputKey → Option Output) (txId : TxId) :
    Nat → List Input → Coins
  | _, [] => coins
  | i, input :: inputs =>
    (coins.unspend source? txId i input.source).unspendAll source? txId (i + 1) inputs

end Coins

end DaoLedger
