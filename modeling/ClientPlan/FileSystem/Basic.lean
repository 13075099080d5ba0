import ClientPlan.FileSystem.Fault
import ClientPlan.Text.Utf8

/-!
# File Systems

Files and directories, found by walking along a path.

An entry stands at an address: the names on the way from the root to it. The
root itself is always a directory and has no entry. A path is resolved name by
name, as the system does it: each name is looked up in the directory reached so
far, going up is a step like any other, and a slash behind a name asks for a
directory. So `file/..` leads nowhere, though its normal spelling does. A path
that is too long is refused before any name of it is looked up.

## Main definitions

* `FileSystem`: The entries with their addresses.
* `FileSystem.WellFormed`: What every real file system satisfies.
* `FileSystem.at?`: The entry at an address.
* `FileSystem.resolve`: The address that a path leads to.
* `FileSystem.isFile`, `FileSystem.isDirectory`, `FileSystem.contains`: Tests of
  a path.
* `FileSystem.children`, `FileSystem.below`: The entries in and below a
  directory.
* `FileSystem.reached`: The entries that a search below a directory reaches.
* `FileSystem.read`: The content of a file.
-/

namespace ClientPlan

/-- What stands at an address. -/
inductive Entry where
  | directory
  | file (content : List UInt8)
  deriving DecidableEq, Repr

/-- The names on the way from the root to an entry. -/
abbrev Address := List Name

/-- The entries of a file system below its root, with their addresses. -/
structure FileSystem where
  entries : List (Address × Entry)
  deriving DecidableEq, Repr

namespace FileSystem

/-- The most bytes that a name may have. -/
def maxNameBytes : Nat := 255

/-- Whether a name is short enough for an entry. -/
def fits (name : Name) : Bool :=
  (Utf8.encode name).length ≤ maxNameBytes

/-- The most bytes that a path may have. -/
def maxPathBytes : Nat := 4095

/-- Whether a path is too long to be looked up. -/
def isTooLong (p : Path) : Bool :=
  maxPathBytes < (Utf8.encode p).length

/-- Whether characters can be the name of an entry: some characters, among them
    no slash and no NUL, and neither of the names that stand for directories on
    the way. -/
def IsName (name : Name) : Prop :=
  name ≠ [] ∧ name ≠ Path.here ∧ name ≠ Path.up ∧ '/' ∉ name ∧ '\x00' ∉ name ∧ fits name = true

instance (name : Name) : Decidable (IsName name) :=
  inferInstanceAs (Decidable (name ≠ [] ∧ name ≠ Path.here ∧ name ≠ Path.up ∧ '/' ∉ name ∧
    '\x00' ∉ name ∧ fits name = true))

/-- What stands in some entries at an address. -/
def find (address : Address) : List (Address × Entry) → Option Entry
  | [] => none
  | (a, entry) :: entries => if a = address then some entry else find address entries

/-- What stands at an address. The root is a directory. -/
def at? (fs : FileSystem) (address : Address) : Option Entry :=
  if address = [] then some .directory else find address fs.entries

/-- What every real file system satisfies: no address has two entries, every
    name is one, and every entry stands in a directory. -/
structure WellFormed (fs : FileSystem) : Prop where
  nodup : (fs.entries.map (·.1)).Nodup
  names : ∀ e ∈ fs.entries, e.1 ≠ [] ∧ ∀ name ∈ e.1, IsName name
  parents : ∀ e ∈ fs.entries, fs.at? e.1.dropLast = some .directory

theorem wellFormed_iff (fs : FileSystem) :
    fs.WellFormed ↔ (fs.entries.map (·.1)).Nodup ∧
      (∀ e ∈ fs.entries, e.1 ≠ [] ∧ ∀ name ∈ e.1, IsName name) ∧
      ∀ e ∈ fs.entries, fs.at? e.1.dropLast = some .directory :=
  ⟨fun h => ⟨h.nodup, h.names, h.parents⟩, fun h => ⟨h.1, h.2.1, h.2.2⟩⟩

instance (fs : FileSystem) : Decidable fs.WellFormed :=
  decidable_of_iff _ fs.wellFormed_iff.symm

/-- Walk from an address along some segments of a path. Every segment needs a
    directory to start from, an empty one too. -/
def walk (fs : FileSystem) : Address → List Name → Except Reason Address
  | address, [] => .ok address
  | address, name :: names =>
    match fs.at? address with
    | none => .error .notFound
    | some (.file _) => .error .notDirectory
    | some .directory =>
      if name = [] ∨ name = Path.here then walk fs address names
      else if name = Path.up then walk fs address.dropLast names
      -- The two names of directories are never too long, so the length comes after them.
      else if !fits name then .error .nameTooLong
      else
        match fs.at? (address ++ [name]) with
        | none => .error .notFound
        | some _ => walk fs (address ++ [name]) names

/-- The address that a path leads to, when the working directory is the given
    one. -/
def resolve (fs : FileSystem) (cwd p : Path) : Except Reason Address :=
  -- The length is that of the path as it is given, not of the joined one.
  if p = [] then .error .notFound
  else if isTooLong p then .error .nameTooLong
  else walk fs [] (Path.segments (Path.join cwd p))

/-- What a path leads to. -/
def entry? (fs : FileSystem) (cwd p : Path) : Option Entry :=
  match fs.resolve cwd p with
  | .ok address => fs.at? address
  | .error _ => none

/-- Whether a path leads to a file. -/
def isFile (fs : FileSystem) (cwd p : Path) : Bool :=
  match fs.entry? cwd p with
  | some (.file _) => true
  | _ => false

/-- Whether a path leads to a directory. -/
def isDirectory (fs : FileSystem) (cwd p : Path) : Bool :=
  match fs.entry? cwd p with
  | some .directory => true
  | _ => false

/-- Whether a path leads anywhere. -/
def contains (fs : FileSystem) (cwd p : Path) : Bool :=
  (fs.entry? cwd p).isSome

/-- An address as it is seen from a directory above it. -/
def suffix? : Address → Address → Option Address
  | [], address => some address
  | _ :: _, [] => none
  | a :: base, b :: address => if a = b then suffix? base address else none

/-- The entries below a directory, with the names on the way from there. -/
def below (fs : FileSystem) (base : Address) : List (Address × Entry) :=
  fs.entries.filterMap fun (address, entry) =>
    match suffix? base address with
    | some (name :: names) => some (name :: names, entry)
    | _ => none

/-- The entries in a directory, with their names. -/
def children (fs : FileSystem) (base : Address) : List (Name × Entry) :=
  (fs.below base).filterMap fun (address, entry) =>
    match address with
    | [name] => some (name, entry)
    | _ => none

/-- The entries that a search below a directory reaches, when it starts from a
    path of that directory. Each directory on the way is entered under its own
    path, so nothing is found in one whose path is too long. -/
def reached (fs : FileSystem) (start : Path) (base : Address) : List (Address × Entry) :=
  (fs.below base).filter fun e =>
    !isTooLong (Path.directory (Path.join start (Path.ofSegments e.1)))

/-- The address of a directory that a path leads to. -/
def directory? (fs : FileSystem) (cwd p : Path) : Option Address :=
  match fs.resolve cwd p with
  | .ok address => if fs.at? address = some .directory then some address else none
  | .error _ => none

/-- The content of the file that a path leads to. -/
def read (fs : FileSystem) (cwd p : Path) : Except Fault (List UInt8) :=
  if '\x00' ∈ p then .error .nulInPath
  else
    match fs.resolve cwd p with
    | .error reason => .error (.refused reason p)
    | .ok address =>
      match fs.at? address with
      | some (.file content) => .ok content
      | some .directory => .error (.refused .isDirectory p)
      | none => .error (.refused .notFound p)

end FileSystem

end ClientPlan
