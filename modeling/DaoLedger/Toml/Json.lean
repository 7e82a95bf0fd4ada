import DaoLedger.Json.Basic
import DaoLedger.Toml.Basic
/-!
TOML values as JSON values. Floats and dates become texts.
-/
namespace DaoLedger.Toml

mutual

def json : Toml → Json
  | .text s => .text s
  | .integer n => .number (toString n)
  | .float literal => .text literal
  | .bool b => .bool b
  | .datetime literal => .text literal
  | .array items => .array (jsonItems items)
  | .table fields => .object (jsonFields fields)

def jsonItems : List Toml → List Json
  | [] => []
  | v :: vs => v.json :: jsonItems vs

def jsonFields : List (String × Toml) → List (String × Json)
  | [] => []
  | (name, v) :: fields => (name, v.json) :: jsonFields fields

end

end DaoLedger.Toml
