import CampusQuery.Dataset

/-! Reading rows off trees. -/

namespace CampusQuery

/-- Only finite numbers are taken in. -/
def Cell.ofTree (type : FieldType) (t : Tree) : Except Flaw Cell :=
  match type, t with
  | .number, .number x => if x.isFinite then .ok (.number x) else .error (.cellType type t.typeName)
  | .text, .text s => .ok (.text s)
  | _, _ => .error (.cellType type t.typeName)

def Field.cellOf (entries : Entries Tree) (f : Field) : Except Flaw Cell :=
  match entries.lookup f.name with
  | some t => Cell.ofTree f.type t
  | none => .error (.missingField f.name)

/-- The row of an object that has all fields of the kind; what else it has is ignored. -/
def Row.ofTree (kind : Kind) : Tree → Except Flaw Row
  | .object entries => kind.fields.mapM (·.cellOf entries)
  | _ => .error .rowNotObject

/-- The rows of those items that have one, and how many are skipped because they have none. -/
def Row.ofTrees (kind : Kind) : List Tree → List Row × Nat
  | [] => ([], 0)
  | t :: rest =>
    let (rows, skipped) := Row.ofTrees kind rest
    match Row.ofTree kind t with
    | .ok row => (row :: rows, skipped)
    | .error _ => (rows, skipped + 1)

def Row.manyOfTree (kind : Kind) : Tree → Except Flaw (List Row × Nat)
  | .array items => .ok (Row.ofTrees kind items)
  | _ => .error .rowsNotArray

end CampusQuery
