import ClientPlan.FileSystem.Basic

/-!
# Differences of File Systems

The steps that lead from one file system to another.

A run computes the file system it leaves behind; what has to be done to the real
one is the difference. Files are removed before anything is made, and entries
are made in the order in which they came to be, so a directory is there before
what stands in it.

## Main definitions

* `FileSystem.Step`: A step on the way from one file system to another.
* `FileSystem.difference`: The steps that lead from one to another.
-/

namespace ClientPlan

namespace FileSystem

/-- A step on the way from one file system to another. -/
inductive Step where
  | remove (address : Address)
  | makeDirectory (address : Address)
  | write (address : Address) (content : List UInt8)
  deriving DecidableEq, Repr

/-- The step that makes an entry. -/
def Step.make (address : Address) : Entry → Step
  | .directory => .makeDirectory address
  | .file content => .write address content

/-- The steps that lead from one file system to another. -/
def difference (before after : FileSystem) : List Step :=
  ((before.entries.filter fun e => after.at? e.1 = none).map fun e => Step.remove e.1) ++
    (after.entries.filter fun e => before.at? e.1 ≠ some e.2).map fun e => Step.make e.1 e.2

end FileSystem

end ClientPlan
