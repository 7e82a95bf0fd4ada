import DaoLedger.Json.Token
/-!
Reading a JSON value from its tokens, one token at a time, with the containers that are still
open on a stack. Nesting is limited by nothing.
-/
namespace DaoLedger.Json

inductive Open where
  | array (items : List Json)
  /-- An object is whole as long as none of its keys is broken. -/
  | object (fields : List (String × Json)) (whole : Bool)
  | entry (fields : List (String × Json)) (whole : Bool) (key : String)

inductive Expected where
  | value
  | firstItem
  | firstKey
  | key
  | colon
  /-- A comma or the end of the innermost container. -/
  | next
  | finished (v : Json)

structure Reader where
  stack : List Open
  expected : Expected

def Reader.start : Reader := ⟨[], .value⟩

def Reader.put? (v : Json) : List Open → Option Reader
  | [] => some ⟨[], .finished v⟩
  | .array items :: s => some ⟨.array (v :: items) :: s, .next⟩
  | .entry fields whole key :: s => some ⟨.object ((key, v) :: fields) whole :: s, .next⟩
  | .object .. :: _ => none

def Reader.value? (stack : List Open) : Token → Option Reader
  | .scalar v => Reader.put? v stack
  | .mark '[' => some ⟨.array [] :: stack, .firstItem⟩
  | .mark '{' => some ⟨.object [] true :: stack, .firstKey⟩
  | .mark _ => none

def Reader.key? : List Open → Token → Option Reader
  | .object fields whole :: s, .scalar (.text key) => some ⟨.entry fields whole key :: s, .colon⟩
  | .object fields _ :: s, .scalar .broken => some ⟨.entry fields false "" :: s, .colon⟩
  | _, _ => none

def Reader.close? : List Open → Char → Option Reader
  | .array items :: s, ']' => Reader.put? (.array items.reverse) s
  | .object fields whole :: s, '}' =>
    Reader.put? (if whole then .object fields.reverse else .broken) s
  | _, _ => none

def Reader.step? (r : Reader) (t : Token) : Option Reader :=
  match r.expected, t with
  | .value, t => Reader.value? r.stack t
  | .firstItem, .mark ']' => Reader.close? r.stack ']'
  | .firstItem, t => Reader.value? r.stack t
  | .firstKey, .mark '}' => Reader.close? r.stack '}'
  | .firstKey, t => Reader.key? r.stack t
  | .key, t => Reader.key? r.stack t
  | .colon, .mark ':' => some ⟨r.stack, .value⟩
  | .next, .mark ',' =>
    match r.stack with
    | .array _ :: _ => some ⟨r.stack, .value⟩
    | .object .. :: _ => some ⟨r.stack, .key⟩
    | _ => none
  | .next, .mark c => Reader.close? r.stack c
  | _, _ => none

def Reader.run? (r : Reader) : List Token → Option Reader
  | [] => some r
  | t :: ts => (r.step? t).bind (·.run? ts)

def ofTokens? (ts : List Token) : Option Json :=
  match Reader.start.run? ts with
  | some ⟨[], .finished v⟩ => some v
  | _ => none

def read? (s : String) : Option Json := (scan? s.toList).bind ofTokens?

end DaoLedger.Json
