import CampusQuery.Double.Text
import CampusQuery.Kind
import CampusQuery.Tree.Basic

/-! The cells of a row: a number or a text. -/

namespace CampusQuery

inductive Cell where
  | number (value : Double)
  | text (value : String)
deriving DecidableEq

namespace Cell

def type : Cell → FieldType
  | number _ => .number
  | text _ => .text

def number? : Cell → Option Double
  | number x => some x
  | text _ => none

def text? : Cell → Option String
  | number _ => none
  | text s => some s

/-- Equality in which all not-a-numbers count as one, and so do the two zeros. -/
def same : Cell → Cell → Bool
  | number x, number y => x.same y
  | text s, text t => s == t
  | _, _ => false

/-- Numbers come before texts, and texts are ordered by code point. -/
def order : Cell → Cell → Ordering
  | number x, number y => x.order y
  | number _, text _ => .lt
  | text _, number _ => .gt
  | text s, text t => compare s t

/-- What a cell is filed under in a set. The two zeros share a place, and each bit pattern of a
not-a-number has its own. -/
def filing : Cell → Cell
  | number (.finite true 0 _ _) => number .zero
  | c => c

def toText : Cell → String
  | number x => x.text
  | text s => s

instance : Hashable Cell where
  hash
    | number (.nan s payload _) => mixHash 1 (mixHash (hash s) (hash payload))
    | number (.infinite s) => mixHash 2 (hash s)
    | number (.finite s m e _) => mixHash 3 (mixHash (hash s) (mixHash (hash m) (hash e)))
    | text s => hash s

def toTree : Cell → Tree
  | number x => .number x
  | text s => .text s

end Cell

end CampusQuery
