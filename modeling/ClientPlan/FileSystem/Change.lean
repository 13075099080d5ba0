import ClientPlan.FileSystem.Basic

/-!
# Changing Files

The operations that change a file system: writing and removing a file, making
directories.

Each of them looks up all of a path but its last name, and then acts on that
name in the directory reached. An operation that fails leaves the file system as
it was, with one exception that follows from its parts: making a directory
together with those above it keeps the ones that could be made.

## Main definitions

* `FileSystem.write`: A file with some content, new or in place of the old one.
* `FileSystem.remove`: The file system without a file.
* `FileSystem.makeDirectory`: One new directory.
* `FileSystem.makeDirectories`: A directory and all that are missing above it.

## Theorems

* `FileSystem.find_put`: What stands in some entries after one was put there.
* `FileSystem.find_filter_ne`: What stands in some entries without an address.
* `FileSystem.at?_set`: What stands at an address after one entry was set.
* `FileSystem.at?_erase`: What stands at an address after one was erased.
-/

namespace ClientPlan

namespace FileSystem

/-- Some entries with a new one, in place of the old one at its address if there
    is one. -/
def put (address : Address) (entry : Entry) :
    List (Address × Entry) → List (Address × Entry)
  | [] => [(address, entry)]
  | (a, e) :: entries =>
    if a = address then (a, entry) :: entries else (a, e) :: put address entry entries

/-- The file system with an entry at an address. -/
def set (fs : FileSystem) (address : Address) (entry : Entry) : FileSystem :=
  ⟨put address entry fs.entries⟩

/-- The file system without the entry at an address. -/
def erase (fs : FileSystem) (address : Address) : FileSystem :=
  ⟨fs.entries.filter fun e => e.1 ≠ address⟩

theorem find_put (a b : Address) (entry : Entry) (entries : List (Address × Entry)) :
    find b (put a entry entries) = if a = b then some entry else find b entries := by
  induction entries with
  | nil => simp only [put, find]
  | cons e entries ih =>
      rcases e with ⟨c, old⟩
      by_cases hc : c = a
      · -- The old entry is replaced, and no later one can be meant.
        subst hc
        simp only [put, find, if_true]
        split <;> rfl
      · simp only [put, find, if_neg hc]
        rw [ih]
        by_cases hb : c = b
        · subst hb
          rw [if_pos rfl, if_neg (fun h => hc h.symm), if_pos rfl]
        · rw [if_neg hb, if_neg hb]

theorem find_filter_ne (a b : Address) (entries : List (Address × Entry)) :
    find b (entries.filter fun e => e.1 ≠ a) = if a = b then none else find b entries := by
  induction entries with
  | nil => simp only [List.filter_nil, find, ite_self]
  | cons e entries ih =>
      rcases e with ⟨c, entry⟩
      by_cases hc : c = a
      · -- The entry goes, and the rest is as before.
        subst hc
        rw [List.filter_cons_of_neg (by simp only [ne_eq, not_true_eq_false, decide_false,
          Bool.false_eq_true, not_false_eq_true]), ih]
        by_cases hb : c = b
        · rw [if_pos hb, if_pos hb]
        · simp only [find, if_neg hb]
      · rw [List.filter_cons_of_pos (by simpa only [ne_eq, decide_eq_true_eq] using hc)]
        simp only [find]
        rw [ih]
        by_cases hb : c = b
        · subst hb
          rw [if_pos rfl, if_neg (fun h => hc h.symm), if_pos rfl]
        · rw [if_neg hb, if_neg hb]

/-- After an entry was set, it stands at its address and everything else is as
    before. -/
theorem at?_set (fs : FileSystem) (a b : Address) (entry : Entry) (ha : a ≠ []) :
    (fs.set a entry).at? b = if a = b then some entry else fs.at? b := by
  by_cases hb : b = []
  · subst hb
    rw [if_neg ha]
    simp only [at?, if_true]
  · simp only [at?, set, if_neg hb]
    exact find_put a b entry fs.entries

/-- After an address was erased, nothing stands there and everything else is as
    before. -/
theorem at?_erase (fs : FileSystem) (a b : Address) (ha : a ≠ []) :
    (fs.erase a).at? b = if a = b then none else fs.at? b := by
  by_cases hb : b = []
  · subst hb
    rw [if_neg ha]
    simp only [at?, if_true]
  · simp only [at?, erase, if_neg hb]
    exact find_filter_ne a b fs.entries

/-- Where an operation acts. -/
structure Target where
  /-- The directory reached by all of the path but its last name. -/
  parent : Address
  /-- The last name, or `none` if the path ends in no name of an entry. -/
  name : Option Name
  /-- Whether a slash follows the last name. -/
  slash : Bool

/-- The segments of a path up to the last one that is not empty, and whether
    slashes follow it. The last segment comes first. -/
def lastFirst (names : List Name) : List Name × Bool :=
  let reversed := names.reverse.dropWhile (· = [])
  (reversed, names.getLast? = some [])

/-- Where an operation on a path acts. -/
def target (fs : FileSystem) (cwd p : Path) : Except Reason Target :=
  if p = [] then .error .notFound
  else if isTooLong p then .error .nameTooLong
  else
    match lastFirst (Path.segments (Path.join cwd p)) with
    -- Nothing but slashes leads to the root, which has no name of its own.
    | ([], slash) => .ok ⟨[], none, slash⟩
    | (name :: reversed, slash) =>
      match fs.walk [] reversed.reverse with
      | .error reason => .error reason
      | .ok parent =>
        match fs.at? parent with
        | some .directory =>
          if name = Path.here ∨ name = Path.up then .ok ⟨parent, none, slash⟩
          else .ok ⟨parent, some name, slash⟩
        | _ => .error .notDirectory

/-- The file system in which a path leads to a file of the given content. -/
def write (fs : FileSystem) (cwd p : Path) (content : List UInt8) :
    Except Fault FileSystem :=
  if '\x00' ∈ p then .error .nulInPath
  else
    match fs.target cwd p with
    | .error reason => .error (.refused reason p)
    | .ok ⟨_, none, _⟩ => .error (.refused .isDirectory p)
    -- A slash asks for a directory, whatever stands under the name.
    | .ok ⟨_, some _, true⟩ => .error (.refused .isDirectory p)
    | .ok ⟨parent, some name, false⟩ =>
      if !fits name then .error (.refused .nameTooLong p)
      else if fs.at? (parent ++ [name]) = some .directory then .error (.refused .isDirectory p)
      else .ok (fs.set (parent ++ [name]) (.file content))

/-- The file system without the file that a path leads to. -/
def remove (fs : FileSystem) (cwd p : Path) : Except Fault FileSystem :=
  if '\x00' ∈ p then .error .nulInPath
  else
    match fs.target cwd p with
    | .error reason => .error (.refused reason p)
    | .ok ⟨_, none, _⟩ => .error (.refused .isDirectory p)
    | .ok ⟨parent, some name, slash⟩ =>
      if !fits name then .error (.refused .nameTooLong p)
      else
        match fs.at? (parent ++ [name]) with
        | none => .error (.refused .notFound p)
        | some .directory => .error (.refused .isDirectory p)
        | some (.file _) =>
          -- A file with a slash behind it is looked up as if it were a directory.
          if slash then .error (.refused .notDirectory p)
          else .ok (fs.erase (parent ++ [name]))

/-- The file system with one new directory. -/
def makeDirectory (fs : FileSystem) (cwd p : Path) : Except Fault FileSystem :=
  if '\x00' ∈ p then .error .nulInPath
  else
    match fs.target cwd p with
    | .error reason => .error (.refused reason p)
    | .ok ⟨_, none, _⟩ => .error (.refused .alreadyExists p)
    | .ok ⟨parent, some name, _⟩ =>
      if !fits name then .error (.refused .nameTooLong p)
      else if (fs.at? (parent ++ [name])).isSome then .error (.refused .alreadyExists p)
      else .ok (fs.set (parent ++ [name]) .directory)

/-- One directory that may be there already. -/
def ensureDirectory (fs : FileSystem) (cwd p : Path) : FileSystem × Option Fault :=
  match fs.makeDirectory cwd p with
  | .ok fs => (fs, none)
  | .error (.refused reason path) =>
    -- Any refusal is passed over where the directory is there in the end.
    if fs.isDirectory cwd p then (fs, none) else (fs, some (.refused reason path))
  | .error fault => (fs, some fault)

/-- The path of the directory above, and the name in it. A slash at the end of a
    path is no name. -/
def above (p : Path) : Path × Name :=
  if Path.lastName p = [] then
    (Path.directory (Path.directory p), Path.lastName (Path.directory p))
  else (Path.directory p, Path.lastName p)

/-- A directory that may be there already, made together with those above it
    that are missing. What could be made stays if a later one fails. -/
def makeDirectories (fs : FileSystem) (cwd p : Path) : FileSystem × Option Fault :=
  let (head, tail) := above p
  if _h : head ≠ [] ∧ tail ≠ [] ∧ !fs.contains cwd head ∧ head.length < p.length then
    match makeDirectories fs cwd head with
    | (fs, some (.refused reason path)) =>
      -- That something stands there already is passed over. If it is no directory, the
      -- next step finds out.
      if reason = .alreadyExists then
        if tail = Path.here then (fs, none) else ensureDirectory fs cwd p
      else (fs, some (.refused reason path))
    | (fs, some fault) => (fs, some fault)
    | (fs, none) => if tail = Path.here then (fs, none) else ensureDirectory fs cwd p
  else ensureDirectory fs cwd p
  termination_by p.length
  decreasing_by exact _h.2.2.2

end FileSystem

end ClientPlan
