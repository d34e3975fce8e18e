import CampusQuery.Entries
import CampusQuery.Key

/-! Attributes: the fields of named datasets, with their place in a row. -/

namespace CampusQuery

structure Attribute where
  datasetId : String
  field : String
  index : Nat
  type : FieldType
deriving DecidableEq, Repr

namespace Attribute

def of? (datasetId : String) (kind : Kind) (name : String) : Option Attribute := do
  let field ← kind.field? name
  let index ← kind.index? name
  return { datasetId, field := field.name, index, type := field.type }

def key (a : Attribute) : String := a.datasetId ++ "_" ++ a.field

/-- The attribute that a key names if its dataset is of the given kind. -/
def ofKey (kind : Kind) (key : String) : Except Fault Attribute := do
  let (id, field) ← splitKey key
  match of? id kind field with
  | some a => .ok a
  | none => .error (.unknownField key kind field)

/-- The attribute that a key names, given the kinds of the known datasets. -/
def resolve (kinds : Entries Kind) (key : String) : Except Fault Attribute := do
  let (id, _) ← splitKey key
  match kinds.lookup id with
  | some kind => ofKey kind key
  | none => .error (.unknownDataset id)

end Attribute

/-- The dataset that a query is about. -/
structure Scope where
  datasetId : String
  kind : Kind

/-- A key of any other dataset is refused, known or not. -/
def Scope.resolve (scope : Scope) (key : String) : Except Fault Attribute := do
  let (id, _) ← splitKey key
  if id = scope.datasetId then Attribute.ofKey scope.kind key
  else .error (.severalDatasets scope.datasetId id)

end CampusQuery
