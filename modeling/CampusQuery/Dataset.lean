import CampusQuery.Error
import CampusQuery.Row
import CampusQuery.Text.Blank

/-! Datasets: rows of one kind under an id. -/

namespace CampusQuery

structure Dataset where
  id : String
  kind : Kind
  rows : List Row

namespace Dataset

/-- An id is not empty and has no underscore, which separates it from a field, and no white space. -/
def checkId (id : String) : Except Flaw Unit :=
  if id.toList = [] then .error .emptyId
  else if '_' ∈ id.toList then .error (.underscoreInId id)
  else if id.toList.any isBlank then .error (.blankInId id)
  else .ok ()

def make (id : String) (kind : Kind) (rows : List Row) : Except Flaw Dataset := do
  checkId id
  return { id, kind, rows }

end Dataset

end CampusQuery
