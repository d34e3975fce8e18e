import CampusQuery.Options.Basic
import CampusQuery.Transformation.Basic

/-! Grouping and reductions as a query's TRANSFORMATIONS writes them. -/

namespace CampusQuery

def Application.ofTree (scope : Scope) (t : Tree) : Except Fault Application := do
  let .object [(name, body)] := t | .error .applyEntryKeys
  unless isApplyName name do throw (.underscoreInApplyName name)
  let .object [(rule, target)] := body | .error (.applyBodyKeys name)
  let some reduction := Reduction.ofKey? rule | .error (.unknownReduction rule)
  let .text key := target | .error (.applyTargetNotText rule)
  let field ← scope.resolve key
  if reduction.needsNumbers && !field.type.isNumeric then
    throw (.applyTargetNotNumeric rule key)
  return { name, reduction, field }

namespace Transformation

def groupKeyOfTree (scope : Scope) : Tree → Except Fault Attribute
  | .text key => scope.resolve key
  | _ => .error .groupKeyNotText

/-- Each name is used once. -/
def applicationsOfTrees (scope : Scope) : (used : List String) → List Tree →
    Except Fault (List Application)
  | _, [] => .ok []
  | used, t :: ts => do
    let a ← Application.ofTree scope t
    if a.name ∈ used then .error (.duplicateApplyName a.name)
    else return a :: (← applicationsOfTrees scope (a.name :: used) ts)

/-- A column of a grouped query has one value for each group. -/
def checkColumn (t : Transformation) : Column → Except Fault Unit
  | .apply name => if (t.application? name).isSome then .ok () else .error (.columnNotApplied name)
  | .field a => if a ∈ t.group then .ok () else .error (.columnNotGrouped a.key)

def ofTree (scope : Scope) (columns : List Column) (entries : Entries Tree) :
    Except Fault Transformation := do
  let some (.array (key :: keys)) := entries.lookup "GROUP" | .error (.emptyArray "GROUP")
  let group ← (key :: keys).mapM (groupKeyOfTree scope)
  let some (.array items) := entries.lookup "APPLY" | .error (.notArray "APPLY")
  let apply ← applicationsOfTrees scope [] items
  let t : Transformation := { group, apply }
  columns.forM t.checkColumn
  return t

end Transformation

end CampusQuery
