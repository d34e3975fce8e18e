import CampusQuery.Answer
import CampusQuery.Ingestion
import CampusQuery.Store

/-! Datasets that are kept and queried. -/

namespace CampusQuery

structure Summary where
  id : String
  kind : Kind
  rowCount : Nat
deriving DecidableEq, Repr

/-- A store, and a cap on the records of an answer. -/
structure Registry where
  store : Store := ∅
  cap : Nat := 5000

namespace Registry

def ids (r : Registry) : List String := r.store.ids

def summaries (r : Registry) : List Summary :=
  r.store.datasets.map fun d => ⟨d.id, d.kind, d.rows.length⟩

def context (r : Registry) : Context := Context.registerAll { cap := r.cap } r.store.datasets

def answer (r : Registry) (query : Tree) : Except Error (List Tree) :=
  (r.context.answer query).map (·.map Record.toTree)

end Registry

/-- What can be asked of a registry. A request that fails leaves the registry as it was at that point. -/
abbrev Request (α : Type) := ExceptT Error (StateM Registry) α

namespace Request

/-- Refuses ids that are not allowed or already in use. -/
def checkNew (id : String) : Request Unit := do
  (Dataset.checkId id).mapError Error.invalidDataset
  if (← get).store.contains id then throw (.invalidDataset (.alreadyAdded id))

/-- Adds a dataset with rows that fit, and gives all ids. -/
def add (d : Dataset) : Request (List String) := do
  checkNew d.id
  if d.rows.isEmpty then throw (.invalidDataset (.noRows d.id))
  if let some index := d.rows.findIdx? fun row => !row.conforms d.kind then
    throw (.invalidDataset (.rowMismatch d.id d.kind index))
  let store ← (← get).store.insert d
  modify ({ · with store })
  return (← get).ids

/-- Adds those items of an array that are rows, and gives all ids. -/
def addTree (id : String) (kind : Kind) (t : Tree) : Request (List String) := do
  checkNew id
  let (rows, _) ← (Row.manyOfTree kind t).mapError Error.invalidDataset
  add (← (Dataset.make id kind rows).mapError Error.invalidDataset)

/-- Removes the dataset with an id, and gives it. -/
def remove (id : String) : Request Dataset := do
  (Dataset.checkId id).mapError Error.invalidDataset
  let (d, store) ← (← get).store.remove id
  modify ({ · with store })
  return d

/-- The records that answer a query. -/
def query (q : Tree) : Request (List Tree) := do
  (← get).answer q

end Request

namespace Registry

variable {α : Type}

/-- The outcome of a request, and the registry after it. -/
def perform (r : Registry) (request : Request α) : Except Error α × Registry := request.run r

/-- The outcome of a request, with the registry after it if it succeeds. -/
def perform? (r : Registry) (request : Request α) : Except Error (α × Registry) :=
  (r.perform request).1.map fun a => (a, (r.perform request).2)

def add (r : Registry) (d : Dataset) : Except Error Registry :=
  (r.perform? (Request.add d)).map (·.2)

def addTree (r : Registry) (id : String) (kind : Kind) (t : Tree) : Except Error Registry :=
  (r.perform? (Request.addTree id kind t)).map (·.2)

def remove (r : Registry) (id : String) : Except Error (Dataset × Registry) :=
  r.perform? (Request.remove id)

end Registry

end CampusQuery
