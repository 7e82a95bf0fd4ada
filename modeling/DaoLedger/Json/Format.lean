import DaoLedger.Json.Basic
import DaoLedger.Text.Digits
/-!
Types that have a JSON form. A record is written as an object with its fields in order. It is
read from an object, in which every known field stands at most once and unknown fields are
skipped, or from an array of exactly its fields in order. A choice is written as the name of the
case, or as an object with that name as its only key and the content as its value.
-/
namespace DaoLedger

class JsonFormat (α : Type) where
  toJson : α → Json
  ofJson? : Json → Option α

export JsonFormat (toJson ofJson?)

namespace Json

def ofNat (n : Nat) : Json := .number (String.ofList (Text.decimal n))

def nat? : Json → Option Nat
  | .number literal => Text.ofDecimal? literal.toList
  | _ => none

def natBelow? (bound : Nat) (v : Json) : Option Nat :=
  (nat? v).bind fun n => if n < bound then some n else none

def ofText (s : String) : Json := .text s

def text? : Json → Option String
  | .text s => some s
  | _ => none

def readAll? {α : Type} (read : Json → Option α) : List Json → Option (List α)
  | [] => some []
  | v :: vs => do
    let a ← read v
    return a :: (← readAll? read vs)

def valuesOf (name : String) (fields : List (String × Json)) : List Json :=
  (fields.filter fun f => f.1 == name).map (·.2)

def fieldOf? (fields : List (String × Json)) (name : String) : Option (Option Json) :=
  match valuesOf name fields with
  | [] => some none
  | [v] => some (some v)
  | _ => none

def fieldsOf? (fields : List (String × Json)) : List String → Option (List (Option Json))
  | [] => some []
  | name :: names => do
    let v ← fieldOf? fields name
    return v :: (← fieldsOf? fields names)

/-- The fields of a record, `none` for those that an object leaves out. -/
def record? (names : List String) : Json → Option (List (Option Json))
  | .array items => if items.length = names.length then some (items.map some) else none
  | .object fields => fieldsOf? fields names
  | _ => none

def needed? {α : Type} [JsonFormat α] (v : Option Json) : Option α := v.bind ofJson?

/-- A field that may be left out or be `null`. -/
def optional? {α : Type} [JsonFormat α] : Option Json → Option (Option α)
  | none => some none
  | some .null => some none
  | some v => (ofJson? v).map some

def case? : Json → Option (String × Option Json)
  | .text name => some (name, none)
  | .object [(name, content)] => some (name, some content)
  | _ => none

/-- A case without content, also written with `null` for its content. -/
def isPlain : Option Json → Bool
  | none => true
  | some .null => true
  | _ => false

def oneCase (name : String) (content : Json) : Json := .object [(name, content)]

def plainCase? {α : Type} (all : List α) (name : α → String) (v : Json) : Option α := do
  let (found, content) ← case? v
  if isPlain content then all.find? (name · == found) else none

end Json

instance : JsonFormat Json := ⟨id, some⟩

instance : JsonFormat UInt8 where
  toJson n := Json.ofNat n.toNat
  ofJson? v := (Json.natBelow? UInt8.size v).map UInt8.ofNat

instance : JsonFormat UInt32 where
  toJson n := Json.ofNat n.toNat
  ofJson? v := (Json.natBelow? UInt32.size v).map UInt32.ofNat

instance : JsonFormat UInt64 where
  toJson n := Json.ofNat n.toNat
  ofJson? v := (Json.natBelow? UInt64.size v).map UInt64.ofNat

instance : JsonFormat Nat where
  toJson := Json.ofNat
  ofJson? := Json.nat?

instance : JsonFormat Bool where
  toJson := .bool
  ofJson?
    | .bool b => some b
    | _ => none

instance : JsonFormat String where
  toJson := Json.ofText
  ofJson? := Json.text?

instance {α : Type} [JsonFormat α] : JsonFormat (List α) where
  toJson xs := .array (xs.map toJson)
  ofJson?
    | .array vs => Json.readAll? ofJson? vs
    | _ => none

instance {α : Type} [JsonFormat α] : JsonFormat (Option α) where
  toJson
    | none => .null
    | some a => toJson a
  ofJson? v := Json.optional? (some v)

instance {α β : Type} [JsonFormat α] [JsonFormat β] : JsonFormat (α × β) where
  toJson p := .array [toJson p.1, toJson p.2]
  ofJson?
    | .array [a, b] => do return (← ofJson? a, ← ofJson? b)
    | _ => none

instance {n : Nat} : JsonFormat (Vector UInt8 n) where
  toJson v := toJson v.toList
  ofJson? v := do
    let bytes : List UInt8 ← ofJson? v
    if h : bytes.length = n then some ⟨bytes.toArray, by simpa using h⟩ else none

end DaoLedger
