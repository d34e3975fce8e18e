import CampusQuery.Dataset
import CampusQuery.Entries

/-! What a query is answered from: datasets by id and a cap on the number of records. -/

namespace CampusQuery

structure Context where
  datasets : Entries Dataset := []
  cap : Nat := 5000

namespace Context

/-- A dataset takes the place of one with the same id. -/
def register (ctx : Context) (d : Dataset) : Context :=
  { ctx with datasets := ctx.datasets.insert d.id d }

def registerAll (ctx : Context) (ds : List Dataset) : Context := ds.foldl register ctx

def dataset? (ctx : Context) (id : String) : Option Dataset := ctx.datasets.lookup id

def kinds (ctx : Context) : Entries Kind := ctx.datasets.map fun (id, d) => (id, d.kind)

/-- The ids in ascending order. -/
def ids (ctx : Context) : List String := ctx.datasets.keys.mergeSort (· ≤ ·)

end Context

end CampusQuery
