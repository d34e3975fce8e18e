import CampusQuery.Cell

/-! Rows of cells, addressed by position. -/

namespace CampusQuery

abbrev Row := List Cell

namespace Row

/-- One cell for each field of the kind, of the field's type. -/
def conforms (row : Row) (kind : Kind) : Bool :=
  row.length == kind.fields.length &&
    (kind.fields.zip row).all fun (field, cell) => cell.type == field.type

/-- The object of the cells under the names of their fields. -/
def toTree (row : Row) (kind : Kind) : Tree :=
  .object (Entries.ofList ((kind.fields.zip row).map fun (field, cell) => (field.name, cell.toTree)))

end Row

end CampusQuery
