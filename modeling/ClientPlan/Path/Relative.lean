import ClientPlan.Path.Normal

/-!
# Relative Paths

The way from one directory to another path, and the directory that several
paths have in common.

## Main definitions

* `Path.names`: The segments of a path that are not empty.
* `Path.relative`: The way from a directory to a path.
* `Path.commonDirectory`: The longest path that some paths begin with.
-/

namespace ClientPlan

namespace Path

/-- The segments of a path that are not empty. -/
def names (p : Path) : List Name :=
  (segments p).filter fun name => name ≠ []

/-- What two lists begin with in common. -/
def commonStart : List Name → List Name → List Name
  | a :: as, b :: bs => if a = b then a :: commonStart as bs else []
  | _, _ => []

/-- The way from a directory to a path: up to what both have in common and down
    from there. -/
def relative (cwd p base : Path) : Path :=
  let target := names (absolute cwd p)
  let start := names (absolute cwd base)
  let shared := (commonStart start target).length
  orHere (ofSegments
    (List.replicate (start.length - shared) up ++ target.drop shared))

/-- The names that all of some normal paths begin with. -/
def commonNames : List Path → List Name
  | [] => []
  | [p] => names p
  | p :: paths => commonStart (names p) (commonNames paths)

/-- The longest path that some absolute, normal paths begin with, or `none` if
    there are no paths. -/
def commonDirectory (paths : List Path) : Option Path :=
  if paths = [] then none else some ('/' :: ofSegments (commonNames paths))

end Path

end ClientPlan
