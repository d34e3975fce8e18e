import CampusQuery.Kind
import CampusQuery.Text.Quoted
import CampusQuery.Tree.Text

/-! What can go wrong, by cause, and how each cause is reported. -/

namespace CampusQuery

/-- The forms that a rule of the query grammar can ask for. -/
inductive Shape where
  | object
  | array
  | text
deriving DecidableEq, Repr

def Shape.described : Shape → String
  | object => "an object"
  | array => "an array"
  | text => "a string"

/-- Causes for which a query is refused. -/
inductive Fault where
  -- any place in a query
  | notObject (place : String)
  | notArray (place : String)
  | emptyArray (place : String)
  | missing (place key : String)
  -- the query grammar
  | wrongShape (rule : String) (shape : Shape) (found : String)
  | emptyObject (rule : String)
  | tooManyKeys (rule : String) (limit actual : Nat)
  | undeclaredKey (rule key : String)
  | invalidApplyName (name : String)
  -- qualified keys
  | invalidKey (key : String)
  | unknownField (key : String) (kind : Kind) (field : String)
  | unknownDataset (id : String)
  | severalDatasets (id other : String)
  -- COLUMNS and ORDER
  | columnNotText (found : String)
  | applyNameWithoutTransformations (name : String)
  | noDataset
  | unknownDirection (direction : String)
  | orderKeyNotText
  | orderShape (found : String)
  | orderKeyNotInColumns (key : String)
  -- WHERE
  | emptyFilter
  | severalOperators (count : Nat)
  | unknownOperator (operator : String)
  | operandNotObject (operator : String)
  | notOneKey (operator : String) (count : Nat)
  | matchOnNumber (key : String)
  | comparisonOnText (operator key : String)
  | operandType (operator : String) (operand : Tree)
  | innerWildcard
  -- TRANSFORMATIONS
  | groupKeyNotText
  | applyEntryKeys
  | underscoreInApplyName (name : String)
  | applyBodyKeys (name : String)
  | unknownReduction (key : String)
  | applyTargetNotText (rule : String)
  | applyTargetNotNumeric (rule key : String)
  | duplicateApplyName (name : String)
  | columnNotApplied (name : String)
  | columnNotGrouped (key : String)
  /-- A cause in a caller's own words. -/
  | stated (words : String)

namespace Fault

def message : Fault → String
  | notObject place => place ++ " must be an object"
  | notArray place => place ++ " must be an array"
  | emptyArray place => place ++ " must be a non-empty array"
  | missing place key => place ++ " missing " ++ key
  | wrongShape rule shape found => rule ++ " must be " ++ shape.described ++ ", found " ++ found
  | emptyObject rule => rule ++ " must not be empty"
  | tooManyKeys rule limit actual =>
    rule ++ " expects at most " ++ toString limit ++ " key(s), found " ++ toString actual
  | undeclaredKey rule key => "Invalid key " ++ key ++ " in " ++ rule
  | invalidApplyName name => "Invalid apply name " ++ quoted name
  | invalidKey key => "Invalid key " ++ key
  | unknownField key kind field =>
    "Invalid key " ++ key ++ ": " ++ kind.name ++ " has no field " ++ field
  | unknownDataset id => "Referenced dataset " ++ id ++ " not added yet"
  | severalDatasets id other => "Cannot query more than one dataset: " ++ id ++ " and " ++ other
  | columnNotText found => "COLUMNS entries must be strings, found " ++ found
  | applyNameWithoutTransformations name =>
    "Invalid key " ++ name ++ " in COLUMNS without TRANSFORMATIONS"
  | noDataset => "Cannot determine the dataset of the query"
  | unknownDirection direction => "Invalid ORDER direction " ++ direction
  | orderKeyNotText => "ORDER keys must be strings"
  | orderShape found => "ORDER must be a string or an object, found " ++ found
  | orderKeyNotInColumns key => "ORDER key " ++ key ++ " must be in COLUMNS"
  | emptyFilter => "Filter must specify an operator"
  | severalOperators count =>
    "Filter must specify exactly one operator, found " ++ toString count
  | unknownOperator operator => "Invalid filter key " ++ operator
  | operandNotObject operator => operator ++ " operands must be objects"
  | notOneKey operator count =>
    operator ++ " must have exactly one key, found " ++ toString count
  | matchOnNumber key => "IS needs a string field, " ++ key ++ " is not"
  | comparisonOnText operator key => operator ++ " needs a numeric field, " ++ key ++ " is not"
  | operandType operator operand =>
    "Invalid value type in " ++ operator ++ ": " ++ operand.toText
  | innerWildcard =>
    "Wildcards (*) can only be placed at the beginning or end of an IS string"
  | groupKeyNotText => "GROUP keys must be strings"
  | applyEntryKeys => "APPLY rule must have exactly one key"
  | underscoreInApplyName name => "Cannot have underscore in applyKey " ++ quoted name
  | applyBodyKeys name => "APPLY body of " ++ name ++ " must have exactly one key"
  | unknownReduction key => "Invalid transformation operator " ++ key
  | applyTargetNotText rule => "Invalid key type in " ++ rule
  | applyTargetNotNumeric rule key =>
    "Invalid key type in " ++ rule ++ ": " ++ key ++ " is not numeric"
  | duplicateApplyName name => "Duplicate APPLY key " ++ name
  | columnNotApplied name => "Invalid key " ++ name ++ " in COLUMNS: not an APPLY key"
  | columnNotGrouped key =>
    "Keys in COLUMNS must be in GROUP or APPLY when TRANSFORMATIONS is present: " ++ key
  | stated words => words

end Fault

/-- Causes for which a dataset is refused. -/
inductive Flaw where
  | emptyId
  | underscoreInId (id : String)
  | blankInId (id : String)
  | alreadyAdded (id : String)
  | noRows (id : String)
  | rowMismatch (id : String) (kind : Kind) (index : Nat)
  | cellType (expected : FieldType) (found : String)
  | rowNotObject
  | missingField (name : String)
  | rowsNotArray
  /-- A cause in a caller's own words. -/
  | stated (words : String)

namespace Flaw

def message : Flaw → String
  | emptyId => "Dataset id cannot be empty"
  | underscoreInId id => "Dataset id cannot contain an underscore: " ++ id
  | blankInId id => "Dataset id cannot contain whitespace: " ++ quoted id
  | alreadyAdded id => "Dataset already exists: " ++ id
  | noRows id => "Dataset " ++ id ++ " has no valid rows"
  | rowMismatch id kind index =>
    "Row " ++ toString index ++ " of " ++ id ++ " does not match the " ++ kind.name ++ " schema"
  | cellType expected found => "Expected " ++ expected.name ++ " value, found " ++ found
  | rowNotObject => "Expected object value"
  | missingField name => "Missing column: " ++ name
  | rowsNotArray => "Expected array value"
  | stated words => words

end Flaw

inductive Error where
  | validation (fault : Fault)
  | resultTooLarge (limit actual : Nat)
  | notFound (id : String)
  | invalidDataset (flaw : Flaw)

namespace Error

def message : Error → String
  | validation fault => "Invalid query: " ++ fault.message
  | resultTooLarge limit actual =>
    "The result is too big (" ++ toString actual ++ " rows). Only queries with a maximum of " ++
      toString limit ++ " results are supported"
  | notFound id => "Dataset not found: " ++ id
  | invalidDataset flaw => "Invalid dataset: " ++ flaw.message

def isValidation : Error → Bool
  | validation _ => true
  | _ => false

def isResultTooLarge : Error → Bool
  | resultTooLarge .. => true
  | _ => false

end Error

end CampusQuery
