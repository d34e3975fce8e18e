import CampusQuery.Attribute

/-! What a query shows: its columns and their order. -/

namespace CampusQuery

inductive Column where
  | field (field : Attribute)
  | apply (name : String)
deriving DecidableEq, Repr

namespace Column

def key : Column → String
  | field a => a.key
  | apply name => name

def field? : Column → Option Attribute
  | field a => some a
  | apply _ => none

def applyName? : Column → Option String
  | field _ => none
  | apply name => some name

end Column

inductive Direction where
  | up
  | down
deriving DecidableEq, Repr

namespace Direction

def name : Direction → String
  | up => "Up"
  | down => "Down"

def ofKey? (s : String) : Option Direction :=
  if s = "UP" then some up else if s = "DOWN" then some down else none

end Direction

structure Order where
  direction : Direction
  keys : List String
deriving DecidableEq, Repr

structure Options where
  datasetId : String
  columns : List Column
  order : Option Order
deriving DecidableEq, Repr

namespace Options

def attributes (o : Options) : List Attribute := o.columns.filterMap Column.field?

def applyNames (o : Options) : List String := o.columns.filterMap Column.applyName?

def keys (o : Options) : List String := o.columns.map Column.key

end Options

end CampusQuery
