import CampusQuery.Grammar.Rule
import CampusQuery.Key

/-! Checking a query against the grammar, by a walk along the rules. -/

namespace CampusQuery.Grammar

/-- The long form of an ascending order by one key. -/
def expandShorthand (key : String) : Tree :=
  .object [("dir", .text "UP"), ("keys", .array [.text key])]

def Rule.expand (r : Rule) : Tree → Tree
  | .text key => if r.shorthand then expandShorthand key else .text key
  | t => t

/-- Runs one check after another, and counts them. -/
def tally : List (Except Fault Unit) → Except Fault Nat
  | [] => .ok 0
  | check :: rest => do
    check
    return (← tally rest) + 1

/-- The checks of those of an object's entries that the rule knows, by `sub`, the check of what stands
under a key: first the required ones, then the optional ones, then the rest if there is a rule for them. -/
def Rule.checks (sub : String → Tree → Except Fault Unit) (r : Rule) (entries : Entries Tree) :
    List (Except Fault Unit) :=
  (r.required.map fun key => ((entries.lookup key).map (sub key)).getD (.error (.missing r.key key))) ++
  (r.optional.filterMap fun key => (entries.lookup key).map (sub key)) ++
  r.element.toList.flatMap fun element =>
    (entries.filter fun (key, _) => !r.declares key).map fun (key, t) =>
      if isApplyName key then sub element t else .error (.invalidApplyName key)

/-- Checks an object's entries. One that the rule does not know shows in the count. -/
def Rule.checkEntries (sub : String → Tree → Except Fault Unit) (r : Rule) (entries : Entries Tree) :
    Except Fault Unit := do
  if r.nonEmpty && entries.isEmpty then throw (.emptyObject r.key)
  if let some limit := r.maxKeys then
    if limit < entries.length then throw (.tooManyKeys r.key limit entries.length)
  if (← tally (r.checks sub entries)) ≠ entries.length then
    let unknown := entries.keys.find? fun key => !r.declares key
    throw (.undeclaredKey r.key (unknown.getD ""))

/-- Checks a tree by a rule, and what stands in it by `sub`. -/
def Rule.check (sub : String → Tree → Except Fault Unit) (r : Rule) (t : Tree) : Except Fault Unit :=
  let t := r.expand t
  match r.shape, t with
  | .text, .text _ => .ok ()
  | .array, .array items =>
    if r.nonEmpty && items.isEmpty then .error (.emptyArray r.key)
    else match r.element with
      | some element => items.forM (sub element)
      | none => .ok ()
  | .object, .object entries => r.checkEntries sub entries
  | shape, _ => .error (.wrongShape r.key shape t.typeName)

/-- Checks what stands under a key by the first of the rules that is for it. -/
def checkBy : List Rule → String → Tree → Except Fault Unit
  | [], _, _ => .ok ()
  | r :: rest, key, t => if r.key = key then r.check (checkBy rest) t else checkBy rest key t

def check (key : String) (t : Tree) : Except Fault Unit := checkBy rules key t

def checkQuery (query : Tree) : Except Fault Unit := check "QUERY" query

end CampusQuery.Grammar
