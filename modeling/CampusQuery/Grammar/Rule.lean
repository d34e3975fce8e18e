import CampusQuery.Error

/-! The rules of the query grammar. Each says what may stand under a key; what stands under a key
without a rule is not looked at. -/

namespace CampusQuery.Grammar

structure Rule where
  key : String
  shape : Shape
  required : List String := []
  optional : List String := []
  nonEmpty : Bool := false
  maxKeys : Option Nat := none
  /-- The rule for an array's items, or for what an object has under names of the query's own. -/
  element : Option String := none
  /-- A lone text stands for an ascending order by it. -/
  shorthand : Bool := false
deriving DecidableEq, Repr

def Rule.declares (r : Rule) (key : String) : Bool := r.required.contains key || r.optional.contains key

/-- A rule refers only to rules that come after it. The rules for the entries of APPLY have names
with an underscore, so no key of a query leads to them. -/
def rules : List Rule :=
  [ { key := "QUERY", shape := .object, required := ["WHERE", "OPTIONS"],
      optional := ["TRANSFORMATIONS"] },
    { key := "WHERE", shape := .object,
      optional := ["AND", "OR", "LT", "GT", "EQ", "IS", "NOT"], maxKeys := some 1 },
    { key := "OPTIONS", shape := .object, required := ["COLUMNS"], optional := ["ORDER"],
      maxKeys := some 2 },
    { key := "COLUMNS", shape := .array, nonEmpty := true },
    { key := "ORDER", shape := .object, required := ["dir", "keys"], shorthand := true },
    { key := "dir", shape := .text },
    { key := "keys", shape := .array, nonEmpty := true },
    { key := "TRANSFORMATIONS", shape := .object, required := ["GROUP", "APPLY"] },
    { key := "GROUP", shape := .array, nonEmpty := true },
    { key := "APPLY", shape := .array, element := some "APPLY_ENTRY" },
    { key := "APPLY_ENTRY", shape := .object, nonEmpty := true, maxKeys := some 1,
      element := some "APPLY_RULE" },
    { key := "APPLY_RULE", shape := .object, optional := ["MAX", "MIN", "AVG", "SUM", "COUNT"],
      nonEmpty := true, maxKeys := some 1 } ]

def rule? (key : String) : Option Rule := rules.find? (·.key == key)

end CampusQuery.Grammar
