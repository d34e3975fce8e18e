import CampusQuery.Options.Basic
import CampusQuery.Reduction
import CampusQuery.Row

/-! Records: the rows of an answer. -/

namespace CampusQuery

/-- Cells under the keys of columns, each key once. -/
abbrev Record := Entries Cell

namespace Record

def toTree (r : Record) : Tree := .object (Entries.ofList (r.map fun (key, c) => (key, c.toTree)))

/-- The cells of a row under the keys of their attributes. A cell that the row lacks is left out. -/
def ofRow (attributes : List Attribute) (row : Row) : Record :=
  Entries.pushAll (attributes.filterMap fun a => (row[a.index]?).map fun c => (a.key, c))

/-- One record for a group: fields are those of its first row, apply names stand for reductions. A
value that there is not is left out. -/
def ofGroup (t : Transformation) (columns : List Column) (group : List Row) : Record :=
  Entries.pushAll (columns.filterMap fun
    | .field a => (group.head?.bind (·[a.index]?)).map fun c => (a.key, c)
    | .apply name => do
      let a ← t.application? name
      let c ← a.reduction.ofGroup a.field.index group
      return (a.name, c))

/-- The order of records by one key. A record without it comes first. -/
def orderBy (key : String) (r s : Record) : Ordering :=
  match r.lookup key, s.lookup key with
  | some c, some d => c.order d
  | none, some _ => .lt
  | some _, none => .gt
  | none, none => .eq

end Record

/-- Sorts by the first key and keeps the order of records that are equal there; downwards is that
list reversed. -/
def Order.arrange (o : Order) (records : List Record) : List Record :=
  match o.keys with
  | [] => records
  | key :: _ =>
    let ascending := records.mergeSort fun r s => Record.orderBy key r s != .gt
    match o.direction with
    | .up => ascending
    | .down => ascending.reverse

end CampusQuery
