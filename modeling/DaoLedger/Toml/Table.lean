import DaoLedger.Toml.Basic
/-!
Tables while a document is read. How a table came to be decides what may still be added: a table
that a header opened is complete for dotted keys, one that dotted keys made cannot be opened by a
header, and no key is given twice.
-/
namespace DaoLedger.Toml

inductive Origin where
  | header
  /-- Named on the way to a header. -/
  | implied
  /-- Named on the way to a dotted key. -/
  | dotted
deriving DecidableEq, Repr

inductive Node where
  | value (v : Toml)
  | table (origin : Origin) (fields : List (String × Node))
  | tables (items : List (List (String × Node)))
deriving Inhabited

abbrev Fields := List (String × Node)

def Fields.put (fields : Fields) (key : String) (node : Node) : Fields :=
  match fields with
  | [] => [(key, node)]
  | (k, n) :: fs => if k == key then (key, node) :: fs else (k, n) :: Fields.put fs key node

def editLast (f : Fields → Option Fields) (items : List Fields) : Option Node := do
  let last ← items.getLast?
  return .tables (items.dropLast ++ [← f last])

def editAt (f : Fields → Option Fields) : List String → Fields → Option Fields
  | [], fields => f fields
  | key :: path, fields =>
    match fields.lookup key with
    | none => (editAt f path []).map fun sub => fields.put key (.table .implied sub)
    | some (.table origin sub) =>
      (editAt f path sub).map fun sub => fields.put key (.table origin sub)
    | some (.tables items) => (editLast (editAt f path) items).map (fields.put key)
    | some (.value _) => none

def assign (key : String) (v : Toml) : List String → Fields → Option Fields
  | [], fields => if (fields.lookup key).isSome then none else some (fields.put key (.value v))
  | k :: path, fields =>
    match fields.lookup k with
    | none => (assign key v path []).map fun sub => fields.put k (.table .dotted sub)
    | some (.table origin sub) =>
      if origin = .header || (path.isEmpty && origin ≠ .dotted) then none
      else (assign key v path sub).map fun sub => fields.put k (.table origin sub)
    | some (.tables items) =>
      if path.isEmpty then none
      else (editLast (assign key v path) items).map (fields.put k)
    | some (.value _) => none

def openTable (path : List String) (key : String) (fields : Fields) : Option Fields :=
  editAt (fun fs =>
    match fs.lookup key with
    | none => some (fs.put key (.table .header []))
    | some (.table .implied sub) => some (fs.put key (.table .header sub))
    | some _ => none) path fields

def openItem (path : List String) (key : String) (fields : Fields) : Option Fields :=
  editAt (fun fs =>
    match fs.lookup key with
    | none => some (fs.put key (.tables [[]]))
    | some (.tables items) => some (fs.put key (.tables (items ++ [[]])))
    | some _ => none) path fields

mutual

def Node.freeze : Node → Toml
  | .value v => v
  | .table _ fields => .table (freezeFields fields)
  | .tables items => .array (freezeItems items)

def freezeFields : List (String × Node) → List (String × Toml)
  | [] => []
  | (k, n) :: fs => (k, n.freeze) :: freezeFields fs

def freezeItems : List (List (String × Node)) → List Toml
  | [] => []
  | fs :: items => .table (freezeFields fs) :: freezeItems items

end

end DaoLedger.Toml
