import ClientPlan.Json.Printer

/-!
# Problems of a Document

What a definition document gets wrong, and where.

A problem is located by the steps that lead to it from the outermost value:
names of entries and positions in arrays, and behind each value that says by a
tag what it is, that tag. The tag is no step into the document, so it has a
constructor of its own, though it is shown like a name.

## Main definitions

* `Step`: A step on the way to a problem.
* `Violation`: What is wrong with a value.
* `Problem`: A violation and its location.
* `Problem.report`: The report on all problems of a document.
-/

namespace ClientPlan

namespace Document

/-- A step on the way to a problem. -/
inductive Step where
  | entry (name : String)
  | item (position : Nat)
  /-- The tag by which the value reached so far says what it is. -/
  | tag (word : String)
  deriving DecidableEq, Repr

/-- A step as it is shown in a location. -/
def Step.text : Step → String
  | entry name => name
  | item position => toString position
  | tag word => word

/-- The kinds of objects in a document. -/
inductive Part where
  | document
  | service
  | typeName
  | endpoint
  | auth
  | argument
  | item
  | map
  | external
  | empty
  | parameter
  deriving DecidableEq, Repr

/-- The name by which messages refer to a kind of object. -/
def Part.label : Part → String
  | document => "IrDocument"
  | service => "IrService"
  | typeName => "IrTypeName"
  | endpoint => "IrEndpoint"
  | auth => "IrAuth"
  | argument => "IrArgument"
  | item => "IrItemType"
  | map => "IrMapBody"
  | external => "IrExternalBody"
  | empty => "IrEmpty"
  | parameter => "IrParamId"

/-- What is wrong with a value. -/
inductive Violation where
  /-- The entry that the location ends in does not exist. -/
  | missing
  | noString
  /-- A string that is no text. -/
  | noText
  | noList
  | noObject (expected : Part)
  /-- Not an object, where one is expected that says what it is by a tag. -/
  | noTagged
  /-- An object without the tag that says what it is. -/
  | tagMissing
  /-- A tag that stands for nothing. -/
  | tagUnknown (shown : String) (expected : List String)
  /-- Not one of the words that are allowed. -/
  | noMember (expected : List String)
  /-- A value that no integer is written as. -/
  | noInteger
  | hasFraction
  | notFinite
  /-- A text that is no integer. -/
  | unreadableInteger
  /-- An integer with too many digits, or out of the range of its form. -/
  | oversizedInteger
  /-- A part within too many others. -/
  | tooDeep
  deriving DecidableEq, Repr

/-- Words in quotes. -/
def quotedWords (words : List String) : List String :=
  words.map fun word => "'" ++ word ++ "'"

/-- Alternatives as a sentence lists them, the last one behind an "or". -/
def alternatives : List String → String
  | [] => ""
  | [a] => a
  | [a, b] => a ++ " or " ++ b
  | a :: rest => a ++ ", " ++ alternatives rest

namespace Violation

/-- The code of a violation. -/
def code : Violation → String
  | missing => "missing"
  | noString => "string_type"
  | noText => "string_unicode"
  | noList => "list_type"
  | noObject _ => "model_type"
  | noTagged => "model_attributes_type"
  | tagMissing => "union_tag_not_found"
  | tagUnknown _ _ => "union_tag_invalid"
  | noMember _ => "enum"
  | noInteger => "int_type"
  | hasFraction => "int_from_float"
  | notFinite => "finite_number"
  | unreadableInteger => "int_parsing"
  | oversizedInteger => "int_parsing_size"
  | tooDeep => "recursion_loop"

/-- The wording of a violation. -/
def message : Violation → String
  | missing => "Field required"
  | noString => "Input should be a valid string"
  | noText => "Input should be a valid string, unable to parse raw data as a unicode string"
  | noList => "Input should be a valid list"
  | noObject expected =>
    "Input should be a valid dictionary or instance of " ++ expected.label
  | noTagged => "Input should be a valid dictionary or object to extract fields from"
  | tagMissing => "Unable to extract tag using discriminator 'type'"
  | tagUnknown shown expected =>
    "Input tag '" ++ shown ++ "' found using 'type' does not match any of the expected tags: " ++
      ", ".intercalate (quotedWords expected)
  | noMember expected => "Input should be " ++ alternatives (quotedWords expected)
  | noInteger => "Input should be a valid integer"
  | hasFraction => "Input should be a valid integer, got a number with a fractional part"
  | notFinite => "Input should be a finite number"
  | unreadableInteger =>
    "Input should be a valid integer, unable to parse string as an integer"
  | oversizedInteger => "Unable to parse input string as an integer, exceeded maximum size"
  | tooDeep => "Recursion error - cyclic reference detected"

end Violation

/-- A violation and where it stands. -/
structure Problem where
  location : List Step
  violation : Violation
  deriving DecidableEq, Repr

namespace Problem

/-- The problem as it is seen from one step further out. -/
def under (step : Step) (p : Problem) : Problem :=
  { p with location := step :: p.location }

/-- The lines that report one problem: its location, unless it is the whole
    document, and what is wrong. -/
def lines (p : Problem) : List String :=
  let body := "  " ++ p.violation.message ++ " [type=" ++ p.violation.code ++ "]"
  if p.location.isEmpty then [body]
  else [".".intercalate (p.location.map Step.text), body]

/-- The report on all problems of a document. -/
def report (problems : List Problem) : String :=
  let count := problems.length
  let title :=
    toString count ++ " validation error" ++ (if count = 1 then "" else "s") ++ " for " ++
      Part.document.label
  "\n".intercalate (title :: problems.flatMap lines)

end Problem

end Document

end ClientPlan
