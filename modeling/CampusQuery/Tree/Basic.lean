import CampusQuery.Double.Basic
import CampusQuery.Entries

/-! Value trees, as they come in a JSON document. An object keeps its entries in order, and an object
built by `Entries.insert` has each name once. -/

namespace CampusQuery

inductive Tree where
  | null
  | bool (value : Bool)
  | number (value : Double)
  | text (value : String)
  | array (items : List Tree)
  | object (entries : List (String × Tree))

namespace Tree

def typeName : Tree → String
  | null => "null"
  | bool _ => "boolean"
  | number _ => "number"
  | text _ => "string"
  | array _ => "array"
  | object _ => "object"

def bool? : Tree → Option Bool
  | bool b => some b
  | _ => none

def number? : Tree → Option Double
  | number x => some x
  | _ => none

def text? : Tree → Option String
  | text s => some s
  | _ => none

def array? : Tree → Option (List Tree)
  | array items => some items
  | _ => none

def object? : Tree → Option (Entries Tree)
  | object entries => some entries
  | _ => none

/-- The value under a name of an object. -/
def get? (t : Tree) (key : String) : Option Tree := t.object?.bind (·.lookup key)

def item? (t : Tree) (index : Nat) : Option Tree := t.array?.bind (·[index]?)

mutual

/-- Equality of trees. The order of an object's entries does not matter, all not-a-numbers count as
one, and so do the two zeros. -/
def same : Tree → Tree → Bool
  | null, null => true
  | bool a, bool b => a == b
  | number x, number y => x.same y
  | text a, text b => a == b
  | array xs, array ys => sameItems xs ys
  | object es, object fs => es.length == fs.length && sameEntries es fs
  | _, _ => false

def sameItems : List Tree → List Tree → Bool
  | [], [] => true
  | x :: xs, y :: ys => x.same y && sameItems xs ys
  | _, _ => false

/-- Each entry has an equal one in the other list. -/
def sameEntries : List (String × Tree) → List (String × Tree) → Bool
  | [], _ => true
  | (key, x) :: rest, other =>
    (match other.lookup key with
      | some y => x.same y
      | none => false) && sameEntries rest other

end

end Tree

end CampusQuery
