/-!
# Paths

Paths as they are written: names with slashes between them.

A path is kept as the characters it was given with, since one file has many
spellings and a message shows the one that was used. Everything that looks
inside a path goes through `segments`, which cuts it at each slash, so an empty
segment stands for a slash at an end or for two slashes in a row.

## Main definitions

* `Path`: A path, as the characters it is written with.
* `Path.segments`, `Path.ofSegments`: Cutting a path at its slashes, and back.
* `Path.join`: A path below another one.
* `Path.directory`, `Path.lastName`: The two parts of a path around its last
  slash.

## Theorems

* `Path.ofSegments_segments`: Nothing is lost by cutting.
* `Path.length_directory_le`: The part before the last slash is no longer than
  the path.
-/

namespace ClientPlan

/-- A path, as the characters it is written with. -/
abbrev Path := List Char

/-- A name in a path, or what stands between two slashes. -/
abbrev Name := List Char

namespace Path

/-- The name of a directory inside itself. -/
def here : Name := ['.']

/-- The name of the directory above, inside a directory. -/
def up : Name := ['.', '.']

/-- What stands between the slashes of a path. -/
def segments : Path → List Name
  | [] => [[]]
  | c :: p =>
    if c = '/' then [] :: segments p
    else
      match segments p with
      | [] => [[c]]
      | name :: names => (c :: name) :: names

/-- Names with a slash between each two. -/
def ofSegments : List Name → Path
  | [] => []
  | [name] => name
  | name :: names => name ++ '/' :: ofSegments names

/-- Whether a path starts at the root. -/
def isAbsolute (p : Path) : Bool :=
  p.head? == some '/'

/-- The second path, seen from the first one. A path that starts at the root
    stands for itself. -/
def join (base p : Path) : Path :=
  if isAbsolute p then p
  else if base = [] ∨ base.getLast? = some '/' then base ++ p
  else base ++ '/' :: p

/-- What follows the last slash of a path. -/
def lastName (p : Path) : Name :=
  (p.reverse.takeWhile (· != '/')).reverse

/-- What stands before the last slash of a path and the slashes in front of it.
    Nothing is taken away from a part that consists of slashes. -/
def directory (p : Path) : Path :=
  let head := (p.reverse.dropWhile (· != '/')).reverse
  if head.all (· == '/') then head else (head.reverse.dropWhile (· == '/')).reverse

theorem segments_ne_nil (p : Path) : segments p ≠ [] := by
  cases p with
  | nil => simp only [segments, ne_eq, reduceCtorEq, not_false_eq_true]
  | cons c p =>
      unfold segments
      split
      · simp only [ne_eq, reduceCtorEq, not_false_eq_true]
      · split <;> simp only [ne_eq, reduceCtorEq, not_false_eq_true]

theorem ofSegments_segments (p : Path) : ofSegments (segments p) = p := by
  induction p with
  | nil => rfl
  | cons c p ih =>
      unfold segments
      rcases hs : segments p with _ | ⟨name, names⟩
      · exact absurd hs (segments_ne_nil p)
      rw [hs] at ih
      split
      · rename_i hc
        rw [← ih, hc]
        rfl
      · rw [← ih]
        cases names with
        | nil => rfl
        | cons next names => rfl

theorem length_directory_le (p : Path) : (directory p).length ≤ p.length := by
  unfold directory
  have h : (p.reverse.dropWhile (· != '/')).length ≤ p.reverse.length :=
    (List.dropWhile_sublist _).length_le
  simp only [List.length_reverse] at h
  simp only
  split
  · simpa only [List.length_reverse] using h
  · have h' : ((p.reverse.dropWhile (· != '/')).dropWhile (· == '/')).length ≤
        (p.reverse.dropWhile (· != '/')).length :=
      (List.dropWhile_sublist _).length_le
    simp only [List.reverse_reverse, List.length_reverse]
    omega

end Path

end ClientPlan
