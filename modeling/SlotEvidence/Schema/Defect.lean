/-
Module: SlotEvidence.Schema.Defect
Purpose: What is wrong with data that does not fit a schema, and where.
Trusted boundary: the messages of the validation library
Main exports: Schema.Step, Schema.Cause, Schema.Defect, Schema.Checked
-/
import SlotEvidence.Value

namespace SlotEvidence

namespace Schema

/-- A step from data into one of its parts. -/
inductive Step where
  | name (name : String)
  | index (index : Int)
deriving DecidableEq

/-- Why a part of data does not fit its schema. -/
inductive Cause where
  | missing
  | unexpected
  | keyNotText
  | notText
  | undecodableText
  | emptyText
  | notList
  | notMapping
  /-- A record of this name was expected. -/
  | notRecord (name : String)
  | notTagged
  | notInteger
  | unreadableInteger
  | fractionalInteger
  | oversizedInteger
  | notFinite
  | belowMinimum (minimum : Int)
  | aboveMaximum (maximum : Int)
  | notBoolean
  | unreadableBoolean
  /-- One of these texts was expected. -/
  | notListed (allowed : List String)
  /-- The named tag is missing. -/
  | tagMissing (field : String)
  | tagUnknown (field shown : String) (allowed : List String)
  /-- A further rule for the value was broken; the text tells which. -/
  | refused (reason : String)
  /-- An integer has no text where the text of a value was wanted.  This ends the whole check: the
  refusal stands for all other defects. -/
  | interrupted (refusal : Text.Overlong)
deriving DecidableEq

def Cause.kind : Cause → String
  | .missing => "missing"
  | .unexpected => "extra_forbidden"
  | .keyNotText => "invalid_key"
  | .notText => "string_type"
  | .undecodableText => "string_unicode"
  | .emptyText => "string_too_short"
  | .notList => "list_type"
  | .notMapping => "dict_type"
  | .notRecord _ => "model_type"
  | .notTagged => "model_attributes_type"
  | .notInteger => "int_type"
  | .unreadableInteger => "int_parsing"
  | .fractionalInteger => "int_from_float"
  | .oversizedInteger => "int_parsing_size"
  | .notFinite => "finite_number"
  | .belowMinimum _ => "greater_than_equal"
  | .aboveMaximum _ => "less_than_equal"
  | .notBoolean => "bool_type"
  | .unreadableBoolean => "bool_parsing"
  | .notListed _ => "literal_error"
  | .tagMissing _ => "union_tag_not_found"
  | .tagUnknown _ _ _ => "union_tag_invalid"
  | .refused _ | .interrupted _ => "value_error"

/-- A text between apostrophes, as it is. -/
def inApostrophes (s : String) : String := "'" ++ s ++ "'"

/-- Alternatives in a row, the last one after "or". -/
def alternatives : List String → String
  | [] => ""
  | [only] => inApostrophes only
  | [one, other] => inApostrophes one ++ " or " ++ inApostrophes other
  | first :: rest => inApostrophes first ++ ", " ++ alternatives rest

def Cause.message : Cause → String
  | .missing => "Field required"
  | .unexpected => "Extra inputs are not permitted"
  | .keyNotText => "Keys should be strings"
  | .notText => "Input should be a valid string"
  | .undecodableText =>
      "Input should be a valid string, unable to parse raw data as a unicode string"
  | .emptyText => "String should have at least 1 character"
  | .notList => "Input should be a valid list"
  | .notMapping => "Input should be a valid dictionary"
  | .notRecord name => "Input should be a valid dictionary or instance of " ++ name
  | .notTagged => "Input should be a valid dictionary or object to extract fields from"
  | .notInteger => "Input should be a valid integer"
  | .unreadableInteger => "Input should be a valid integer, unable to parse string as an integer"
  | .fractionalInteger => "Input should be a valid integer, got a number with a fractional part"
  | .oversizedInteger => "Unable to parse input string as an integer, exceeded maximum size"
  | .notFinite => "Input should be a finite number"
  | .belowMinimum minimum => "Input should be greater than or equal to " ++ toString minimum
  | .aboveMaximum maximum => "Input should be less than or equal to " ++ toString maximum
  | .notBoolean => "Input should be a valid boolean"
  | .unreadableBoolean => "Input should be a valid boolean, unable to interpret input"
  | .notListed allowed => "Input should be " ++ alternatives allowed
  | .tagMissing field =>
      "Unable to extract tag using discriminator " ++ inApostrophes field
  | .tagUnknown field shown allowed =>
      "Input tag " ++ inApostrophes shown ++ " found using " ++ inApostrophes field
        ++ " does not match any of the expected tags: "
        ++ ", ".intercalate (allowed.map inApostrophes)
  | .refused reason => "Value error, " ++ reason
  | .interrupted refusal => refusal.message

/-- A part of data that does not fit. -/
structure Defect where
  cause : Cause
  location : List Step := []
deriving DecidableEq

/-- The refusal that ends a check with these defects, if one does. -/
def refusal? (defects : List Defect) : Option Text.Overlong :=
  defects.findSome? fun d =>
    match d.cause with
    | .interrupted refusal => some refusal
    | _ => none

/-- A value that has been checked, or everything that is wrong with the data. -/
abbrev Checked (α : Type) := Except (List Defect) α

/-- Data with a single defect. -/
def refuse {α : Type} (cause : Cause) : Checked α := .error [{ cause }]

namespace Checked

variable {α β : Type}

/-- Both values, or the defects of both. -/
def both (a : Checked α) (b : Checked β) : Checked (α × β) :=
  match a, b with
  | .ok a, .ok b => .ok (a, b)
  | .ok _, .error defects => .error defects
  | .error defects, .ok _ => .error defects
  | .error first, .error second => .error (first ++ second)

/-- The value of a part: its defects lie one step deeper. -/
def within (step : Step) (a : Checked α) : Checked α :=
  a.mapError fun defects => defects.map fun d => { d with location := step :: d.location }

/-- All values of a list, or the defects of all, each under its number. -/
def all (index : Nat) : List (Checked α) → Checked (List α)
  | [] => .ok []
  | a :: rest =>
      ((a.within (.index index)).both (all (index + 1) rest)).map fun (a, rest) => a :: rest

end Checked

end Schema

end SlotEvidence
