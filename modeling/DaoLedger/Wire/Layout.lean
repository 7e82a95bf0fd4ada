import DaoLedger.Chain.Id
import DaoLedger.Crypto.Words
import DaoLedger.Governance.Param
/-!
The binary layout of messages and hashed payloads. Numbers take their full width, the lowest byte
first; texts and lists are led by their length in eight bytes, options by one byte, and choices by
the number of the case in four bytes.
-/
namespace DaoLedger

inductive LayoutError where
  | ended
  | invalidText
  | optionTag (tag : UInt8)
  | unknownCase (index : UInt32) (count : Nat)
deriving DecidableEq, Inhabited, Repr

def LayoutError.message : LayoutError → String
  | .ended => "io error"
  | .invalidText => "string is not valid utf8"
  | .optionTag tag => s!"tag for enum is not valid, found {tag}"
  | .unknownCase index count =>
    s!"invalid value: integer `{index}`, expected variant index 0 <= i < {count}"

abbrev Take := StateT (List UInt8) (Except LayoutError)

class Layout (α : Type) where
  write : α → ByteArray
  read : Take α

namespace Layout

def bytes {α : Type} [Layout α] (a : α) : List UInt8 := (write a).data.toList

/-- Reads a value from the front of the bytes; what follows it does not matter. -/
def ofBytes {α : Type} [Layout α] (bs : List UInt8) : Except LayoutError α :=
  (read.run bs).map (·.1)

def fail {α : Type} (e : LayoutError) : Take α := fun _ => .error e

def splitFrom? {α : Type} : Nat → List α → List α → Option (List α × List α)
  | 0, front, rest => some (front.reverse, rest)
  | _ + 1, _, [] => none
  | n + 1, front, a :: rest => splitFrom? n (a :: front) rest

def split? {α : Type} (n : Nat) (xs : List α) : Option (List α × List α) := splitFrom? n [] xs

def takeBytes (n : Nat) : Take (List UInt8) := fun bs =>
  match split? n bs with
  | some (front, rest) => .ok (front, rest)
  | none => .error .ended

def writeNat (width n : Nat) : ByteArray := (Crypto.bytesLE width n).toByteArray

def readNat (width : Nat) : Take Nat := Crypto.littleEndian <$> takeBytes width

def readMany {α : Type} (item : Take α) : Nat → Take (List α)
  | 0 => pure []
  | n + 1 => do
    let a ← item
    return a :: (← readMany item n)

def writeCase (index : Nat) : ByteArray := writeNat 4 index

def readCase (count : Nat) : Take Nat := do
  let n ← readNat 4
  if n < count then pure n else fail (.unknownCase (UInt32.ofNat n) count)

end Layout

open Layout

instance : Layout UInt8 where
  write n := writeNat 1 n.toNat
  read := UInt8.ofNat <$> readNat 1

instance : Layout UInt32 where
  write n := writeNat 4 n.toNat
  read := UInt32.ofNat <$> readNat 4

instance : Layout UInt64 where
  write n := writeNat 8 n.toNat
  read := UInt64.ofNat <$> readNat 8

instance : Layout String where
  write s := writeNat 8 s.toUTF8.size ++ s.toUTF8
  read := do
    let length ← readNat 8
    let bytes ← takeBytes length
    match String.fromUTF8? bytes.toByteArray with
    | some s => pure s
    | none => fail .invalidText

instance {α : Type} [Layout α] : Layout (Option α) where
  write
    | none => writeNat 1 0
    | some a => writeNat 1 1 ++ write a
  read := do
    match ← readNat 1 with
    | 0 => pure none
    | 1 => some <$> read
    | tag => fail (.optionTag (UInt8.ofNat tag))

instance {α : Type} [Layout α] : Layout (List α) where
  write xs := xs.foldl (fun bs a => bs ++ write a) (writeNat 8 xs.length)
  read := do
    let length ← readNat 8
    readMany read length

instance : Layout TxId where
  write id := write id.text
  read := TxId.mk <$> read

instance : Layout BlockHash where
  write hash := write hash.text
  read := BlockHash.mk <$> read

instance : Layout Param where
  write p := writeCase (Param.all.idxOf p)
  read := do
    let n ← readCase Param.all.length
    pure (Param.all.getD n .proposalFee)

end DaoLedger
