import ClientPlan.CommandLine.Program
import ClientPlan.CommandLine.Scope
import ClientPlan.FileSystem.Difference

/-!
# The Command Line

Carries out a call: takes a picture of the files that the call can look at,
computes what the call leaves behind, and makes it so.

## Main definitions

* `picture`: The files and directories in a part of the file system.
* `main`: The call.
-/

namespace ClientPlan

namespace Shell

/-- The absolute path of an address. -/
def pathOf (address : Address) : String :=
  String.ofList ('/' :: Path.ofSegments address)

/-- The address of an absolute path without anything that goes up. -/
def addressOf (p : Path) : Address :=
  (Path.segments (Path.normalize p)).filter fun name => name ≠ []

/-- What stands at an address, without the content of a file. A link to a file
    counts as the file, and other links are passed over. -/
def entryAt (address : Address) : IO (Option Entry) := do
  let path := (← IO.currentDir) / pathOf address
  if !(← path.pathExists) then return none
  let link := (← path.symlinkMetadata).type == .symlink
  if ← path.isDir then return if link then none else some .directory
  return some (.file [])

/-- The entries in and below the directory at an address, and the directory. -/
partial def entriesBelow (address : Address) : IO (List (Address × Entry)) := do
  match ← entryAt address with
  | none => return []
  | some (.file content) => return [(address, .file content)]
  | some .directory =>
    let mut found := [(address, Entry.directory)]
    for e in ← ((← IO.currentDir) / pathOf address).readDir do
      found := found ++ (← entriesBelow (address ++ [e.fileName.toList]))
    return found

/-- The content of a file. -/
def contentOf (address : Address) : IO (List UInt8) := do
  return (← IO.FS.readBinFile (pathOf address)).toList

/-- A file system with more entries. What is there already stays. -/
def merge (fs : FileSystem) (entries : List (Address × Entry)) : FileSystem :=
  entries.foldl (fun fs e => if (fs.at? e.1).isSome then fs else fs.set e.1 e.2) fs

/-- The files and directories that a run looks at, without the contents of the
    files. -/
def picture (scope : List Path) : IO FileSystem := do
  let mut fs : FileSystem := ⟨[]⟩
  for path in scope do
    for part in CommandLine.ancestors path do
      if let some entry ← entryAt (addressOf part) then
        fs := merge fs [(addressOf part, entry)]
    fs := merge fs (← entriesBelow (addressOf path))
  return fs

/-- A file system with the contents of the files that some paths lead to. -/
def withContents (fs : FileSystem) (cwd : Path) (paths : List Path) : IO FileSystem := do
  let mut fs := fs
  for path in paths do
    if let .ok address := fs.resolve cwd path then
      fs := fs.set address (.file (← contentOf address))
  return fs

/-- Everything that a run could load, excluded or not. -/
def candidates (fs : FileSystem) (cwd : Path) (o : Options) : List Path :=
  match Discovery.discover ⟨fs, cwd, o.recursive⟩ cwd (o.paths.map String.toList) [] with
  | .ok paths => paths
  | .error _ => []

/-- Carry out one step on the real file system. -/
def carryOut : FileSystem.Step → IO Unit
  | .remove address => IO.FS.removeFile (pathOf address)
  | .makeDirectory address => IO.FS.createDir (pathOf address)
  | .write address content => IO.FS.writeBinFile (pathOf address) ⟨content.toArray⟩

/-- The files that a call can look at. -/
def filesFor (cwd : Path) (words : List String) : IO FileSystem := do
  match CommandLine.parse words with
  | .error _ => return ⟨[]⟩
  | .ok o =>
    let fs ← picture (CommandLine.scope cwd o)
    withContents fs cwd (candidates fs cwd o)

end Shell

end ClientPlan

open ClientPlan in
/-- The call with the words of a command line. -/
def main (words : List String) : IO UInt32 := do
  let cwd := (← IO.currentDir).toString.toList
  let before ← Shell.filesFor cwd words
  let result := CommandLine.execute before cwd words
  (before.difference result.fs).forM Shell.carryOut
  IO.print result.output
  IO.eprint result.errorOutput
  match result.exit with
  | .code n => return UInt32.ofNat n
  | .crash crash =>
    IO.eprintln crash.message
    return 1
