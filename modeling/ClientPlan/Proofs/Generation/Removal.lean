import ClientPlan.Generation.Run
import ClientPlan.Proofs.FileSystem.Effects
import ClientPlan.Proofs.Generation.Order

/-!
# Cleaning Up

What is gone after a clean-up, and what is not.

A clean-up removes the files one by one, so a later removal already works on a
file system without the earlier ones. The relation `Removed` speaks of the first
file system and the last one only, and it survives another removal in front,
since nothing is removed that was not there from the start.

## Main definitions

* `Obsolete`: The paths that a clean-up is asked for.
* `Removed`: A file system without the files of some paths.

## Theorems

* `cleanPaths_eq_ok`, `mem_cleanPaths`: The paths that are cleaned up are those asked for.
* `removed_cons`: One more removal in front.
* `removeAll_removed`: Removing without a fault.
-/

namespace ClientPlan

namespace Generation

/-- Whether a clean-up is asked for a path: one of the patterns stands for it. -/
def Obsolete (s : Glob.Search) (root : Path) (patterns : List Path) (p : Path) : Prop :=
  ∃ pattern ∈ patterns, ∃ found,
    s.expand false (Path.join root pattern) = .ok found ∧ p ∈ found

/-- The second file system is the first one without the files of some paths. -/
structure Removed (cwd : Path) (before after : FileSystem) (paths : List Path) : Prop where
  /-- Each path has led to a file. -/
  files : ∀ p ∈ paths, ∃ content, before.at? (Path.address cwd p) = some (.file content)
  /-- Nothing is left of them, and everything else is as before. -/
  entries : ∀ b, after.at? b =
    if b ∈ paths.map (Path.address cwd) then none else before.at? b

/-- The paths that are cleaned up are what the single patterns stand for, in order. -/
theorem cleanPaths_eq_ok (s : Glob.Search) (root : Path) (patterns paths : List Path)
    (h : cleanPaths s root patterns = .ok paths) :
    ∃ found, Discovery.gather (fun p => s.expand false (Path.join root p)) patterns = .ok found ∧
      paths = Discovery.sortDistinct found := by
  unfold cleanPaths at h
  rcases hgather : Discovery.gather (fun p => s.expand false (Path.join root p)) patterns
    with fault | found
  · rw [hgather] at h
    cases h
  · rw [hgather] at h
    cases h
    exact ⟨found, rfl, rfl⟩

theorem mem_cleanPaths (s : Glob.Search) (root : Path) (patterns paths : List Path)
    (h : cleanPaths s root patterns = .ok paths) (p : Path) :
    p ∈ paths ↔ Obsolete s root patterns p := by
  rcases cleanPaths_eq_ok s root patterns paths h with ⟨found, hgather, rfl⟩
  rw [Discovery.mem_sortDistinct]
  exact Discovery.gather_eq_ok _ patterns found hgather p

theorem removed_nil (cwd : Path) (fs : FileSystem) : Removed cwd fs fs [] where
  files := fun _ hp => by cases hp
  entries := fun _ => rfl

theorem removed_cons (cwd p : Path) (fs fs' fs'' : FileSystem) (paths : List Path)
    (h : fs.remove cwd p = .ok fs') (h' : Removed cwd fs' fs'' paths) :
    Removed cwd fs fs'' (p :: paths) := by
  rcases FileSystem.remove_eq_ok fs fs' cwd p h with ⟨hne, rfl, hfile⟩
  constructor
  · intro q hq
    rcases List.mem_cons.1 hq with rfl | hq
    · exact hfile
    · -- What is removed later was not put there by the first removal.
      rcases h'.files q hq with ⟨content, hcontent⟩
      rw [FileSystem.at?_erase fs _ _ hne] at hcontent
      split at hcontent
      · cases hcontent
      · exact ⟨content, hcontent⟩
  · intro b
    rw [h'.entries b, FileSystem.at?_erase fs _ b hne, List.map_cons]
    -- The first file is gone from now on, whatever is removed later.
    by_cases hb : Path.address cwd p = b
    · subst hb
      rw [if_pos rfl, ite_self, if_pos List.mem_cons_self]
    · rw [if_neg hb]
      simp only [List.mem_cons, Ne.symm hb, false_or]

/-- When nothing stops it, a clean-up removes all that it is asked for. -/
theorem removeAll_removed (fs fs' : FileSystem) (cwd : Path) (paths : List Path)
    (h : removeAll fs cwd paths = (fs', none)) : Removed cwd fs fs' paths := by
  induction paths generalizing fs with
  | nil =>
      cases h
      exact removed_nil cwd _
  | cons p paths ih =>
      rw [removeAll] at h
      rcases hremove : fs.remove cwd p with fault | next
      · simp only [hremove, Prod.mk.injEq, reduceCtorEq, and_false] at h
      · simp only [hremove] at h
        exact removed_cons cwd p fs next fs' paths hremove (ih next h)

end Generation

end ClientPlan
