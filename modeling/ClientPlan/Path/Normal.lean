import ClientPlan.Path.Basic

/-!
# Normal Paths

One spelling for the many of a path, found by looking at the spelling alone.

A normal path has no empty segments and none that stand for the directory
itself, and a segment that goes up stands only at the beginning of a relative
path. Exactly two slashes at the beginning of a path are kept, because such
paths may have a meaning of their own; any other number counts as one.

`clean` is the milder form: it drops empty segments and those for the directory
itself, and leaves alone what goes up.

## Main definitions

* `Path.rootSlashes`: The slashes that a path keeps at its beginning.
* `Path.normalize`: The normal spelling of a path.
* `Path.absolute`: The normal spelling, seen from the root.
* `Path.clean`: The spelling without superfluous segments.
-/

namespace ClientPlan

namespace Path

/-- The slashes that a path keeps at its beginning: both if there are exactly
    two, and one if there are any others. -/
def rootSlashes (p : Path) : Path :=
  match (p.takeWhile (· == '/')).length with
  | 0 => []
  | 2 => ['/', '/']
  | _ => ['/']

/-- One segment after some others, the last of which comes first. Going up
    takes the last one back, unless there is none to take back. -/
def push (rooted : Bool) (names : List Name) (name : Name) : List Name :=
  if name = [] ∨ name = here then names
  else if name = up then
    match names with
    -- Above the root there is nothing, and a relative path keeps on going up.
    | [] => if rooted then [] else [up]
    | last :: rest => if last = up then up :: names else rest
  else name :: names

/-- The segments of the normal spelling of a path. -/
def normalSegments (rooted : Bool) (names : List Name) : List Name :=
  (names.foldl (push rooted) []).reverse

/-- A path that has no segment left stands for the directory itself. -/
def orHere (p : Path) : Path :=
  if p = [] then here else p

/-- The normal spelling of a path. -/
def normalize (p : Path) : Path :=
  orHere (rootSlashes p ++ ofSegments (normalSegments (isAbsolute p) (segments p)))

/-- The normal spelling of a path, seen from the root when the working directory
    is the given one. -/
def absolute (cwd p : Path) : Path :=
  normalize (join cwd p)

/-- The spelling of a path without empty segments and those that stand for the
    directory itself. -/
def clean (p : Path) : Path :=
  orHere (rootSlashes p ++
    ofSegments ((segments p).filter fun name => name ≠ [] ∧ name ≠ here))

end Path

end ClientPlan
