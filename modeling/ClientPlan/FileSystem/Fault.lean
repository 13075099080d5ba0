import ClientPlan.Path.Basic
import ClientPlan.Text.Quoted

/-!
# Faults of File Operations

Why an operation on files fails, with the path it was given.

## Main definitions

* `FileSystem.Reason`: The reasons that the system gives.
* `FileSystem.Fault`: The failure of an operation.
* `FileSystem.Fault.message`: The wording of a failure.
-/

namespace ClientPlan

namespace FileSystem

/-- The reasons for which the system refuses an operation. -/
inductive Reason where
  | notFound
  | alreadyExists
  | notDirectory
  | isDirectory
  | nameTooLong
  deriving DecidableEq, Repr

/-- The number of a reason. -/
def Reason.number : Reason → Nat
  | notFound => 2
  | alreadyExists => 17
  | notDirectory => 20
  | isDirectory => 21
  | nameTooLong => 36

/-- The wording of a reason. -/
def Reason.message : Reason → String
  | notFound => "No such file or directory"
  | alreadyExists => "File exists"
  | notDirectory => "Not a directory"
  | isDirectory => "Is a directory"
  | nameTooLong => "File name too long"

/-- The failure of an operation. -/
inductive Fault where
  /-- The system refuses the operation on a path. -/
  | refused (reason : Reason) (path : Path)
  /-- The path holds a NUL character, which no name can. -/
  | nulInPath
  deriving DecidableEq, Repr

/-- The wording of a failure. -/
def Fault.message : Fault → String
  | refused reason path =>
    "[Errno " ++ toString reason.number ++ "] " ++ reason.message ++ ": " ++
      Text.quoted (String.ofList path)
  | nulInPath => "embedded null byte"

end FileSystem

end ClientPlan
