import ClientPlan.Document.OfJson
import ClientPlan.FileSystem.Basic
import ClientPlan.Json.Reader
import ClientPlan.Path.Normal
import ClientPlan.Text.Newline

/-!
# Loading Definitions

The services that a definition file declares.

A file goes through four steps, and each of them can refuse it: its bytes are
read, decoded as text, read as JSON, and checked as a document. The report on a
refused file names its path, in the spelling without superfluous segments. Two
things are no property of the document and are passed on as they are: a path
that no file can have, and an integer that is too long to be converted.

## Main definitions

* `Document.Defect`: Why a file gives no services.
* `DefinitionError`: The report on a file that gives no services.
* `Document.definitionsOf`: The services of a JSON value.
* `Document.load`: The services of a file.
-/

namespace ClientPlan

namespace Document

/-- Why a file gives no services. -/
inductive Defect where
  | unreadable (reason : FileSystem.Reason)
  | noText (fault : Utf8.Fault)
  /-- The text breaks the grammar of JSON at an offset. -/
  | noJson (text : List Char) (expected : Json.Expectation) (offset : Nat)
  | invalid (problems : List Problem)
  deriving DecidableEq, Repr

/-- The wording of a defect of the file with the given path. -/
def Defect.message (path : Path) : Defect → String
  | unreadable reason => "cannot be read: " ++ (FileSystem.Fault.refused reason path).message
  | noText fault => "cannot be read: " ++ fault.message
  | noJson text expected offset =>
    "not a JSON document: " ++ (Json.Fault.malformed expected offset).message text
  | invalid problems => "invalid conjure IR document:\n" ++ Problem.report problems

end Document

/-- The report on a file that gives no services, or on a value that stands for
    no document if there is no file. -/
structure DefinitionError where
  path : Option Path
  defect : Document.Defect
  deriving DecidableEq, Repr

/-- The wording of the report on a file that gives no services. -/
def DefinitionError.message (e : DefinitionError) : String :=
  match e.path with
  | none => e.defect.message []
  | some path => String.ofList path ++ ": " ++ e.defect.message path

namespace Document

/-- The services of a JSON value, or all its problems. -/
def definitionsOf (value : Json) (limits : Limits := .standard) :
    Checked (List (Service TypeExpr)) :=
  (ofJson value limits).map definitions

/-- Why loading a file ends without services. -/
inductive LoadFailure where
  | definition (error : DefinitionError)
  /-- The path holds a NUL character. -/
  | nulInPath
  /-- An integer of this many digits stands in the file. -/
  | tooManyDigits (count : Nat)
  deriving DecidableEq, Repr

/-- The services that the bytes of a file declare, when the file has the given
    path. -/
def parse (path : Path) (bytes : List UInt8) :
    Except LoadFailure (List (Service TypeExpr)) :=
  let refuse := fun defect => LoadFailure.definition ⟨some path, defect⟩
  match Utf8.decode bytes with
  | .error fault => .error (refuse (.noText fault))
  | .ok decoded =>
    -- Offsets and lines are counted in the text as it is read, not in the bytes.
    let text := Text.unifyNewlines decoded
    match Json.read text with
    | .error (.malformed expected offset) => .error (refuse (.noJson text expected offset))
    | .error (.tooManyDigits count) => .error (.tooManyDigits count)
    | .ok value =>
      match definitionsOf value with
      | .error problems => .error (refuse (.invalid problems))
      | .ok services => .ok services

/-- The services of the file that a path leads to. -/
def load (fs : FileSystem) (cwd path : Path) :
    Except LoadFailure (List (Service TypeExpr)) :=
  let shown := Path.clean path
  match fs.read cwd shown with
  | .error (.refused reason _) =>
    .error (.definition ⟨some shown, .unreadable reason⟩)
  | .error .nulInPath => .error .nulInPath
  | .ok bytes => parse shown bytes

end Document

end ClientPlan
