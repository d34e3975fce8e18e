/-! The two kinds of datasets and their fields. -/

namespace CampusQuery

inductive FieldType where
  | text
  | number
deriving DecidableEq, Repr

def FieldType.name : FieldType → String
  | text => "string"
  | number => "number"

def FieldType.isNumeric : FieldType → Bool
  | text => false
  | number => true

structure Field where
  name : String
  type : FieldType
deriving DecidableEq, Repr

inductive Kind where
  | sections
  | rooms
deriving DecidableEq, Repr

namespace Kind

def name : Kind → String
  | sections => "sections"
  | rooms => "rooms"

def ofName? (s : String) : Option Kind :=
  if s = "sections" then some sections else if s = "rooms" then some rooms else none

/-- The fields in the order of a row's cells. -/
def fields : Kind → List Field
  | sections =>
    [⟨"dept", .text⟩, ⟨"id", .text⟩, ⟨"avg", .number⟩, ⟨"instructor", .text⟩, ⟨"title", .text⟩,
      ⟨"pass", .number⟩, ⟨"fail", .number⟩, ⟨"audit", .number⟩, ⟨"uuid", .text⟩, ⟨"year", .number⟩]
  | rooms =>
    [⟨"fullname", .text⟩, ⟨"shortname", .text⟩, ⟨"number", .text⟩, ⟨"name", .text⟩,
      ⟨"address", .text⟩, ⟨"lat", .number⟩, ⟨"lon", .number⟩, ⟨"seats", .number⟩, ⟨"type", .text⟩,
      ⟨"furniture", .text⟩, ⟨"href", .text⟩]

def field? (k : Kind) (name : String) : Option Field := k.fields.find? (·.name == name)

def index? (k : Kind) (name : String) : Option Nat := k.fields.findIdx? (·.name == name)

theorem fields_nodup (k : Kind) : (k.fields.map Field.name).Nodup := by cases k <;> decide

end Kind

end CampusQuery
