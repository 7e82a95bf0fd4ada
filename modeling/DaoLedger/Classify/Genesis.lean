import DaoLedger.Chain.Block
/-!
Recognising the genesis transaction: the configured id at the configured height, with outputs that
add up to the whole supply.
-/
namespace DaoLedger

inductive GenesisFault where
  | tooLittle (missing : Nat)
  | tooMuch (excess : Nat)
deriving DecidableEq, Inhabited, Repr

def GenesisFault.message : GenesisFault → String
  | .tooLittle missing =>
    s!"Genesis tx is invalid; not using all available inputs. Remaining input value is {missing} sat"
  | .tooMuch excess =>
    s!"Genesis tx is invalid; using more than available inputs. Remaining input value is {excess} sat"

def Genesis.names (g : Genesis) (tx : RawTx) : Bool :=
  tx.id = g.txId && tx.blockHeight = g.blockHeight

def RawOutput.genesis (o : RawOutput) : Output := ⟨o, .genesisOutput⟩

def RawTx.genesis (tx : RawTx) : Tx :=
  { tx.undefined with outputs := tx.outputs.map RawOutput.genesis, type := .genesis }

/-- The genesis transaction, nothing for any other one, and a fault if the sum is not right. -/
def Genesis.find? (g : Genesis) (tx : RawTx) : Except GenesisFault (Option Tx) :=
  if g.names tx then
    let supply := g.totalSupply.toNat
    if tx.outputSum < supply then .error (.tooLittle (supply - tx.outputSum))
    else if supply < tx.outputSum then .error (.tooMuch (tx.outputSum - supply))
    else .ok (some tx.genesis)
  else .ok none

end DaoLedger
