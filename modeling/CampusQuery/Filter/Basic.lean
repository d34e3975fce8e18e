import CampusQuery.Attribute
import CampusQuery.Pattern
import CampusQuery.Row

/-! Filters on rows. -/

namespace CampusQuery

inductive Comparison where
  | less
  | greater
  | equal
deriving DecidableEq, Repr

namespace Comparison

def key : Comparison → String
  | less => "LT"
  | greater => "GT"
  | equal => "EQ"

def ofKey? (s : String) : Option Comparison :=
  if s = "LT" then some less else if s = "GT" then some greater
  else if s = "EQ" then some equal else none

def holds : Comparison → Double → Double → Bool
  | less, x, y => x.lt y
  | greater, x, y => y.lt x
  | equal, x, y => x.eq y

end Comparison

inductive Filter where
  | all (filters : List Filter)
  | any (filters : List Filter)
  | not (filter : Filter)
  | compare (comparison : Comparison) (field : Attribute) (value : Double)
  | like (field : Attribute) (pattern : Pattern)

namespace Filter

mutual

/-- A comparison fails on a cell that is missing or no number, a match on one that is no text. -/
def accepts : Filter → Row → Bool
  | all fs, row => allAccept fs row
  | any fs, row => anyAccepts fs row
  | not f, row => !f.accepts row
  | compare c field value, row => ((row[field.index]?).bind Cell.number?).any (c.holds · value)
  | like field pattern, row => ((row[field.index]?).bind Cell.text?).any pattern.accepts

def allAccept : List Filter → Row → Bool
  | [], _ => true
  | f :: fs, row => f.accepts row && allAccept fs row

def anyAccepts : List Filter → Row → Bool
  | [], _ => false
  | f :: fs, row => f.accepts row || anyAccepts fs row

end

mutual

def size : Filter → Nat
  | all fs | any fs => 1 + sizes fs
  | not f => 1 + f.size
  | compare .. | like .. => 1

def sizes : List Filter → Nat
  | [] => 0
  | f :: fs => f.size + sizes fs

end

mutual

/-- The attributes that the filter reads, from left to right. -/
def attributes : Filter → List Attribute
  | all fs | any fs => attributesOfAll fs
  | not f => f.attributes
  | compare _ field _ | like field _ => [field]

def attributesOfAll : List Filter → List Attribute
  | [] => []
  | f :: fs => f.attributes ++ attributesOfAll fs

end

/-- Whether a row fits the kind and passes. -/
def keeps (f : Filter) (kind : Kind) (row : Row) : Bool := row.conforms kind && f.accepts row

end Filter

end CampusQuery
