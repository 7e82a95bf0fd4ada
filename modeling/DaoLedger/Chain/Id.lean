import Std.Data.ExtTreeMap
import DaoLedger.Text.Digits
import DaoLedger.Json.Format
/-!
Names of transactions, blocks and outputs. Ids are texts as the base chain delivers them; they
are ordered by code points, and output keys by transaction id, then index.
-/
namespace DaoLedger

structure TxId where
  text : String
deriving DecidableEq, Inhabited, Repr

structure BlockHash where
  text : String
deriving DecidableEq, Inhabited, Repr

structure OutputKey where
  txId : TxId
  index : UInt32
deriving DecidableEq, Inhabited, Repr

instance : Ord TxId := ⟨compareOn TxId.text⟩

instance : Std.TransOrd TxId := inferInstanceAs (Std.TransCmp (compareOn TxId.text))

instance : Std.LawfulEqOrd TxId where
  eq_of_compare {a b} h := by
    cases a; cases b
    exact congrArg TxId.mk (Std.LawfulEqOrd.eq_of_compare h)

instance : Ord OutputKey := ⟨compareLex (compareOn OutputKey.txId) (compareOn OutputKey.index)⟩

instance : Std.TransOrd OutputKey :=
  inferInstanceAs (Std.TransCmp (compareLex (compareOn OutputKey.txId) (compareOn OutputKey.index)))

instance : Std.LawfulEqOrd OutputKey where
  eq_of_compare {a b} h := by
    cases a; cases b
    have h := Ordering.then_eq_eq.1 h
    simp only [compareOn] at h
    rw [OutputKey.mk.injEq]
    exact ⟨Std.LawfulEqOrd.eq_of_compare h.1, Std.LawfulEqOrd.eq_of_compare h.2⟩

/-- Finite maps, sorted by key. Two maps with the same entries are equal. -/
abbrev Map (κ : Type) [Ord κ] (ν : Type) := Std.ExtTreeMap κ ν compare

def leading? : Nat → List Char → Option (List Char)
  | 0, _ => some []
  | _, [] => none
  | bytes, c :: cs =>
    if c.utf8Size ≤ bytes then (leading? (bytes - c.utf8Size) cs).map (c :: ·) else none

def abbreviate (kind s : String) : String :=
  kind ++ "(" ++ ((leading? 8 s.toList).map String.ofList).getD s ++ "…)"

def TxId.abbreviated (id : TxId) : String := abbreviate "TxId" id.text

def BlockHash.abbreviated (hash : BlockHash) : String := abbreviate "BlockHash" hash.text

def BlockHash.ofBytes (bytes : List UInt8) : BlockHash := ⟨Text.hex bytes⟩

def BlockHash.isEmpty (hash : BlockHash) : Bool := hash.text.isEmpty

instance : ToString TxId := ⟨TxId.text⟩

instance : ToString BlockHash := ⟨BlockHash.text⟩

instance : ToString OutputKey := ⟨fun key => key.txId.text ++ ":" ++ toString key.index⟩

instance : JsonFormat TxId where
  toJson id := Json.ofText id.text
  ofJson? v := (Json.text? v).map TxId.mk

instance : JsonFormat BlockHash where
  toJson hash := Json.ofText hash.text
  ofJson? v := (Json.text? v).map BlockHash.mk

end DaoLedger
