import CampusQuery.Options.Basic

/-! Columns and order as a query's OPTIONS writes them. -/

namespace CampusQuery

namespace Order

def keyOfTree : Tree → Except Fault String
  | .text key => .ok key
  | _ => .error .orderKeyNotText

/-- A lone key orders upwards. -/
def shape : Tree → Except Fault Order
  | .text key => .ok ⟨.up, [key]⟩
  | .object entries => do
    let some (.text dir) := entries.lookup "dir" | .error (.missing "ORDER" "dir")
    let some direction := Direction.ofKey? dir | .error (.unknownDirection dir)
    let some (.array keys) := entries.lookup "keys" | .error (.missing "ORDER" "keys")
    return ⟨direction, ← keys.mapM keyOfTree⟩
  | t => .error (.orderShape t.typeName)

/-- Rows are ordered by columns only. -/
def ofTree (columns : List Column) (t : Tree) : Except Fault Order := do
  let order ← shape t
  match order.keys.find? fun key => !columns.any (·.key == key) with
  | some key => .error (.orderKeyNotInColumns key)
  | none => .ok order

end Order

/-- Apply names are left to be found among the transformations, if there are any. -/
def Column.ofTree (kinds : Entries Kind) (transformed : Bool) : Tree → Except Fault Column
  | .text key =>
    if isApplyName key then
      if transformed then .ok (.apply key) else .error (.applyNameWithoutTransformations key)
    else do return .field (← Attribute.resolve kinds key)
  | t => .error (.columnNotText t.typeName)

namespace Options

/-- The dataset of the first GROUP key. -/
def groupDatasetId (kinds : Entries Kind) (transformations : Option (Entries Tree)) :
    Except Fault String := do
  let some (.array (.text key :: _)) := transformations.bind (·.lookup "GROUP") | .error .noDataset
  let (id, _) ← splitKey key
  if (kinds.lookup id).isSome then .ok id else .error (.unknownDataset id)

/-- The dataset of the first field among the columns, if there is one. -/
def datasetIdOf (kinds : Entries Kind) (transformations : Option (Entries Tree)) :
    List Attribute → Except Fault String
  | a :: _ => .ok a.datasetId
  | [] => groupDatasetId kinds transformations

def checkDataset (id : String) (attributes : List Attribute) : Except Fault Unit :=
  match attributes.find? (·.datasetId ≠ id) with
  | some a => .error (.severalDatasets id a.datasetId)
  | none => .ok ()

/-- All fields are of one dataset. -/
def ofTree (kinds : Entries Kind) (transformations : Option (Entries Tree))
    (entries : Entries Tree) : Except Fault Options := do
  let some (.array items) := entries.lookup "COLUMNS" | .error (.missing "OPTIONS" "COLUMNS")
  let columns ← items.mapM (Column.ofTree kinds transformations.isSome)
  let attributes := columns.filterMap Column.field?
  let datasetId ← datasetIdOf kinds transformations attributes
  checkDataset datasetId attributes
  let order ← (entries.lookup "ORDER").mapM (Order.ofTree columns)
  return { datasetId, columns, order }

end Options

end CampusQuery
