import CampusQuery.Filter.Basic

/-! Filters as a query's WHERE writes them: objects with one operator each. -/

namespace CampusQuery.Filter

inductive Operator where
  | and
  | or
  | not
  | is
  | compare (comparison : Comparison)

def Operator.ofKey? (key : String) : Option Operator :=
  if key = "AND" then some .and
  else if key = "OR" then some .or
  else if key = "NOT" then some .not
  else if key = "IS" then some .is
  else (Comparison.ofKey? key).map .compare

/-- The only entry of an operator's body. -/
def onlyEntry (operator : String) : Tree → Except Fault (String × Tree)
  | .object [entry] => .ok entry
  | .object entries => .error (.notOneKey operator entries.length)
  | _ => .error (.notObject operator)

def comparisonOf (scope : Scope) (c : Comparison) (body : Tree) : Except Fault Filter := do
  let (key, value) ← onlyEntry c.key body
  let field ← scope.resolve key
  if field.type = .text then .error (.comparisonOnText c.key key)
  else match value with
    | .number x => .ok (.compare c field x)
    | _ => .error (.operandType c.key value)

def matchOf (scope : Scope) (body : Tree) : Except Fault Filter := do
  let (key, value) ← onlyEntry "IS" body
  let field ← scope.resolve key
  if field.type = .number then .error (.matchOnNumber key)
  else match value with
    | .text s => return .like field (← Pattern.ofText s)
    | _ => .error (.operandType "IS" value)

mutual

/-- Reads an object with one operator. What is no object is refused with the fault given. -/
def ofTree (scope : Scope) (otherwise : Fault) : Tree → Except Fault Filter
  | .object [] => .error .emptyFilter
  | .object [(key, body)] =>
    match Operator.ofKey? key with
    | some .and => do return .all (← operands scope key body)
    | some .or => do return .any (← operands scope key body)
    | some .not => do return .not (← ofTree scope (.notObject key) body)
    | some .is => matchOf scope body
    | some (.compare c) => comparisonOf scope c body
    | none => .error (.unknownOperator key)
  | .object entries => .error (.severalOperators entries.length)
  | _ => .error otherwise

/-- There is at least one operand. -/
def operands (scope : Scope) (key : String) : Tree → Except Fault (List Filter)
  | .array (t :: ts) => do
    let f ← ofTree scope (.operandNotObject key) t
    return f :: (← ofTrees scope key ts)
  | _ => .error (.emptyArray key)

def ofTrees (scope : Scope) (key : String) : List Tree → Except Fault (List Filter)
  | [] => .ok []
  | t :: ts => do
    let f ← ofTree scope (.operandNotObject key) t
    return f :: (← ofTrees scope key ts)

end

/-- An empty WHERE filters nothing. -/
def ofWhere (scope : Scope) : Tree → Except Fault (Option Filter)
  | .object [] => .ok none
  | t => do return some (← ofTree scope (.notObject "WHERE") t)

end CampusQuery.Filter
