import ClientPlan.Glob.Expand

/-!
# Finding Definitions

The definition files that some paths and patterns stand for.

A path that leads to a directory stands for the definition files in it, or, in a
recursive search, for those at any depth below it, hidden ones included.
Anything else is a pattern and stands for the files it matches, whatever their
names end in. What is excluded is compared by spelling: a file that is found
under two spellings is excluded only under the one that the exclusion uses.

## Main definitions

* `Discovery.definitionEnding`: What the name of a definition file ends in.
* `Discovery.searched`: The files that one path stands for.
* `Discovery.excludedBy`: The paths that one exclusion stands for.
* `Discovery.sortDistinct`: Paths in ascending order, each of them once.
* `Discovery.discover`: The definition files to plan, in ascending order.

## Theorems

* `Discovery.mem_insertSorted`: What stands among some paths with one more.
* `Discovery.mem_sortDistinct`: Sorting neither adds nor drops a path.
-/

namespace ClientPlan

namespace Discovery

/-- What the name of a definition file ends in. -/
def definitionEnding : Name := ".conjure.json".toList

/-- Whether a name is that of a definition file. -/
def isDefinition (name : Name) : Bool :=
  definitionEnding.isSuffixOf name

/-- The definition files in a directory whose paths are not too long. -/
def inDirectory (s : Glob.Search) (dir : Path) (address : Address) : List Path :=
  (((s.fs.children address).filter fun e => e.2 ≠ .directory ∧ isDefinition e.1).map fun e =>
    Path.join dir e.1).filter fun p => !FileSystem.isTooLong p

/-- The definition files that a search below a directory reaches. -/
def belowDirectory (s : Glob.Search) (dir : Path) (address : Address) : List Path :=
  ((s.fs.reached dir address).filter fun e =>
    e.2 ≠ .directory ∧ (e.1.getLast?.any isDefinition) = true).map fun e =>
      Path.join dir (Path.ofSegments e.1)

/-- The files that a path below the root stands for. -/
def searched (s : Glob.Search) (root path : Path) : Except FileSystem.Fault (List Path) :=
  let start := Path.join root path
  match s.fs.directory? s.cwd start with
  | some address =>
    -- A directory wins over a pattern of the same spelling, a file does not.
    .ok (if s.recursive then belowDirectory s start address else inDirectory s start address)
  | none =>
    (s.expand false start).map fun found => found.filter fun p => s.fs.isFile s.cwd p

/-- The paths that an exclusion stands for. -/
def excludedBy (s : Glob.Search) (root exclusion : Path) :
    Except FileSystem.Fault (List Path) :=
  let start := Path.join root exclusion
  -- Here a file wins over a pattern, and a directory is a pattern like any other.
  if s.fs.isFile s.cwd start then .ok [start] else s.expand false start

/-- The results of a search for each of some paths, together. -/
def gather (search : Path → Except FileSystem.Fault (List Path)) :
    List Path → Except FileSystem.Fault (List Path)
  | [] => .ok []
  | path :: paths =>
    match search path with
    | .error fault => .error fault
    | .ok found =>
      match gather search paths with
      | .error fault => .error fault
      | .ok more => .ok (found ++ more)

/-- Whether a path comes before another one, by the numbers of their
    characters. -/
def comesBefore : Path → Path → Bool
  | [], [] => false
  | [], _ :: _ => true
  | _ :: _, [] => false
  | c :: p, d :: q => if c = d then comesBefore p q else c.toNat < d.toNat

/-- Ascending paths with one more, unless it is there already. -/
def insertSorted (p : Path) : List Path → List Path
  | [] => [p]
  | q :: paths =>
    if p = q then q :: paths
    else if comesBefore p q then p :: q :: paths
    else q :: insertSorted p paths

/-- Paths in ascending order, each of them once. -/
def sortDistinct (paths : List Path) : List Path :=
  paths.foldr insertSorted []

theorem mem_insertSorted (p q : Path) (paths : List Path) :
    q ∈ insertSorted p paths ↔ q = p ∨ q ∈ paths := by
  induction paths with
  | nil => simp only [insertSorted, List.mem_cons, List.not_mem_nil, or_false]
  | cons r paths ih =>
      by_cases hr : p = r
      · -- The path is there already.
        subst hr
        simp only [insertSorted, if_true, List.mem_cons]
        exact ⟨Or.inr, fun h => h.elim Or.inl id⟩
      · simp only [insertSorted, if_neg hr]
        split
        · simp only [List.mem_cons]
        · simp only [List.mem_cons, ih]
          exact ⟨fun h => h.elim (Or.inr ∘ Or.inl) (·.elim Or.inl (Or.inr ∘ Or.inr)),
            fun h => h.elim (Or.inr ∘ Or.inl) (·.elim Or.inl (Or.inr ∘ Or.inr))⟩

theorem mem_sortDistinct (q : Path) (paths : List Path) :
    q ∈ sortDistinct paths ↔ q ∈ paths := by
  induction paths with
  | nil => exact Iff.rfl
  | cons p paths ih =>
      rw [List.mem_cons, ← ih]
      exact mem_insertSorted p q (sortDistinct paths)

/-- The definition files that some paths stand for and no exclusion does, in
    ascending order. -/
def discover (s : Glob.Search) (root : Path) (paths exclusions : List Path) :
    Except FileSystem.Fault (List Path) :=
  match gather (excludedBy s root) exclusions with
  | .error fault => .error fault
  | .ok excluded =>
    match gather (searched s root) paths with
    | .error fault => .error fault
    | .ok found => .ok (sortDistinct (found.filter fun p => p ∉ excluded))

end Discovery

end ClientPlan
