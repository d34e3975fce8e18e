import CampusQuery.Filter.OfTree
import CampusQuery.Options.OfTree
import CampusQuery.Plan.Basic
import CampusQuery.Transformation.OfTree

/-! Reading a plan off a query. -/

namespace CampusQuery.Plan

/-- Resolves the names of a query by the kinds of the known datasets. -/
def ofTree (kinds : Entries Kind) (query : Tree) : Except Fault Plan := do
  let .object root := query | .error (.notObject "Query")
  let some (.object optionsTree) := root.lookup "OPTIONS" | .error (.missing "Query" "OPTIONS")
  let transformations ← (root.lookup "TRANSFORMATIONS").mapM fun
    | .object entries => .ok entries
    | _ => .error (.notObject "TRANSFORMATIONS")
  let options ← Options.ofTree kinds transformations optionsTree
  let some kind := kinds.lookup options.datasetId | .error (.unknownDataset options.datasetId)
  let scope : Scope := ⟨options.datasetId, kind⟩
  let transformation ← transformations.mapM (Transformation.ofTree scope options.columns)
  let some whereTree := root.lookup "WHERE" | .error (.missing "Query" "WHERE")
  let filter ← Filter.ofWhere scope whereTree
  return { filter, options, transformation }

end CampusQuery.Plan
