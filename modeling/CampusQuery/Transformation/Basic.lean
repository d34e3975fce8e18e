import CampusQuery.Attribute

/-! Grouping of rows and what is computed of each group. -/

namespace CampusQuery

inductive Reduction where
  | max
  | min
  | avg
  | sum
  | count
deriving DecidableEq, Repr

namespace Reduction

def key : Reduction → String
  | max => "MAX"
  | min => "MIN"
  | avg => "AVG"
  | sum => "SUM"
  | count => "COUNT"

def ofKey? (s : String) : Option Reduction :=
  [max, min, avg, sum, count].find? (·.key == s)

/-- Texts can only be counted. -/
def needsNumbers (r : Reduction) : Bool := r != count

end Reduction

/-- A reduction of one attribute under a name. -/
structure Application where
  name : String
  reduction : Reduction
  field : Attribute
deriving DecidableEq, Repr

structure Transformation where
  group : List Attribute
  apply : List Application
deriving DecidableEq, Repr

def Transformation.application? (t : Transformation) (name : String) : Option Application :=
  t.apply.find? (·.name == name)

end CampusQuery
