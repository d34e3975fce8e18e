import CampusQuery.Context
import CampusQuery.Grammar.Check
import CampusQuery.Grouping
import CampusQuery.Plan.OfTree
import CampusQuery.Record

/-! Answering queries. -/

namespace CampusQuery

/-- Refuses a list that is longer than the limit. -/
def capped {α : Type} (limit : Nat) (xs : List α) : Except Error (List α) :=
  if limit < xs.length then .error (.resultTooLarge limit xs.length) else .ok xs

namespace Plan

/-- The rows that pass. Without a filter all do, whether they fit the kind or not. -/
def matching (p : Plan) (d : Dataset) : List Row :=
  match p.filter with
  | some f => d.rows.filter (f.keeps d.kind)
  | none => d.rows

/-- One record for each row, or for each group of rows. -/
def records (p : Plan) (rows : List Row) : List Record :=
  match p.transformation with
  | some t => (t.groups rows).map (Record.ofGroup t p.options.columns)
  | none => rows.map (Record.ofRow p.options.attributes)

def arrange (p : Plan) (records : List Record) : List Record :=
  p.options.order.elim records (·.arrange records)

def answer (p : Plan) (ctx : Context) : Except Error (List Record) := do
  let id := p.options.datasetId
  let some d := ctx.dataset? id | .error (.validation (.unknownDataset id))
  let records ← capped ctx.cap (p.records (p.matching d))
  return p.arrange records

end Plan

namespace Context

def plan (ctx : Context) (query : Tree) : Except Fault Plan := do
  Grammar.checkQuery query
  Plan.ofTree ctx.kinds query

/-- The records that a query asks for. -/
def answer (ctx : Context) (query : Tree) : Except Error (List Record) := do
  let p ← (ctx.plan query).mapError .validation
  p.answer ctx

end Context

end CampusQuery
