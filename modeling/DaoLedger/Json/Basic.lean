/-!
JSON values. Numbers keep the literal they were written with, so that no digit is lost and an
integer is told from a fraction; objects keep their fields in the order written.
-/
namespace DaoLedger

inductive Json where
  | null
  | bool (b : Bool)
  | number (literal : String)
  | text (s : String)
  /-- A text, or an object with a key, in which an escape names one half of a surrogate pair alone.
  It can be skipped, but it has no value. -/
  | broken
  | array (items : List Json)
  | object (fields : List (String × Json))
deriving Inhabited, Repr, BEq

end DaoLedger
