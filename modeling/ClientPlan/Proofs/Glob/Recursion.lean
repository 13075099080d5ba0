import ClientPlan.Proofs.Glob.Literal

/-!
# Patterns in a Recursive Search

What a pattern stands for when a search becomes recursive.

The part that consists of two stars is the only one with a meaning of its own in a
recursive search. In any other search it is a pattern for one name that is not hidden. In
a recursive one it stands for any number of such names, and so for one of them too. The
path that is put together is the same, and the directory it is found in has to be entered
either way. So a recursive search loses nothing, and it adds something only to a pattern
with two stars for a part.

## Theorems

* `Search.Finds.recursive`, `Search.Stands.recursive`: What is found stays found in a
  recursive search.
* `Search.Finds.of_recursive`, `Search.Stands.of_recursive`: Nothing is added without two
  stars.
-/

namespace ClientPlan

namespace FileSystem

/-- The path of a directory that can be asked for its entries is not too long. -/
theorem isTooLong_of_directory? (fs : FileSystem) (cwd dir : Path) (base : Address)
    (h : fs.directory? cwd (Path.orHere dir) = some base) : isTooLong dir = false := by
  rw [directory?_eq_some_iff, resolve_eq_ok_iff] at h
  by_cases hdir : dir = []
  · rw [hdir]
    decide
  · rw [Path.orHere_of_ne_nil dir hdir] at h
    exact h.1.2.1

end FileSystem

namespace Glob

variable {fs : FileSystem} {cwd : Path} {onlyDirectories : Bool}

/-- What a part stands for in a directory it stands for in a recursive search. -/
theorem Search.Finds.recursive (hfs : fs.WellFormed) {dir p : Path} {part : Name}
    (h : Search.Finds ⟨fs, cwd, false⟩ onlyDirectories dir part p) :
    Search.Finds ⟨fs, cwd, true⟩ onlyDirectories dir part p := by
  cases h with
  | here plain empty there => exact .here plain empty there
  | entry plain named there => exact .entry plain named there
  | start _ deep _ => exact absurd deep.1 Bool.false_ne_true
  | below _ deep _ _ _ _ _ _ => exact absurd deep.1 Bool.false_ne_true
  | child pattern _ leads there asked visible matched =>
      by_cases hdeep : part = anyDepth
      · -- Two stars stand for a single name among others, and not for a hidden one.
        have hname := hfs.isName _ (by rw [there, Option.isSome_some]) p
          (List.mem_append_right _ List.mem_cons_self)
        have hvisible : [p].any isHidden = false := by
          rcases hhidden : isHidden p with _ | _
          · rw [List.any_cons, List.any_nil, hhidden, Bool.or_self]
          · rw [hdeep, hhidden] at visible
            exact absurd visible (by decide)
        have hshort := FileSystem.isTooLong_of_sublist
          (Path.directory_join_prefix dir p hname.2.2.2.1).sublist
          (FileSystem.isTooLong_of_directory? fs cwd dir _ leads)
        have hbelow : Search.Finds ⟨fs, cwd, true⟩ onlyDirectories dir part
            (Path.ofSegments [p]) :=
          .below pattern ⟨rfl, hdeep⟩ leads (List.cons_ne_nil p []) there hshort asked hvisible
        exact hbelow
      · exact .child pattern (fun deep => hdeep deep.2) leads there asked visible matched

/-- Any other part stands for nothing more in a recursive search. -/
theorem Search.Finds.of_recursive {dir p : Path} {part : Name} (hpart : part ≠ anyDepth)
    (h : Search.Finds ⟨fs, cwd, true⟩ onlyDirectories dir part p) :
    Search.Finds ⟨fs, cwd, false⟩ onlyDirectories dir part p := by
  cases h with
  | here plain empty there => exact .here plain empty there
  | entry plain named there => exact .entry plain named there
  | start _ deep _ => exact absurd deep.2 hpart
  | below _ deep _ _ _ _ _ _ => exact absurd deep.2 hpart
  | child pattern _ leads there asked visible matched =>
      exact .child pattern (fun deep => hpart deep.2) leads there asked visible matched

/-- What a pattern stands for it stands for in a recursive search. -/
theorem Search.Stands.recursive (hfs : fs.WellFormed) {pattern p : Path}
    (h : Search.Stands ⟨fs, cwd, false⟩ onlyDirectories pattern p) :
    Search.Stands ⟨fs, cwd, true⟩ onlyDirectories pattern p := by
  induction h with
  | itself plain there => exact .itself plain there
  | beneath wild before _ found ih => exact .beneath wild before ih (found.recursive hfs)
  | within wild before askable found => exact .within wild before askable (found.recursive hfs)

/-- A pattern without two stars for a part stands for nothing more in a recursive search. -/
theorem Search.Stands.of_recursive {pattern p : Path} (hpattern : anyDepth ∉ Path.names pattern)
    (h : Search.Stands ⟨fs, cwd, true⟩ onlyDirectories pattern p) :
    Search.Stands ⟨fs, cwd, false⟩ onlyDirectories pattern p := by
  -- All parts of a pattern are among its names, the one behind the last slash too.
  have hlast {pattern : Path} (hpattern : anyDepth ∉ Path.names pattern) :
      Path.lastName pattern ≠ anyDepth := by
    intro hdeep
    rw [Path.names_directory_append_lastName, hdeep] at hpattern
    exact hpattern (List.mem_append_right _ (by decide))
  induction h with
  | itself plain there => exact .itself plain there
  | @beneath _ pattern _ _ wild before _ found ih =>
      refine .beneath wild before (ih fun hmem => hpattern ?_) (found.of_recursive (hlast hpattern))
      rw [Path.names_directory_append_lastName]
      exact List.mem_append_left _ hmem
  | within wild before askable found =>
      exact .within wild before askable (found.of_recursive (hlast hpattern))

end Glob

end ClientPlan
