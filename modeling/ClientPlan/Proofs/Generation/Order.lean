import Mathlib.Data.List.Sort
import ClientPlan.Generation.Discovery

/-!
# The Order of Paths

Definition files are found in ascending order.

Paths are compared character by character, and a path comes after each of its own
beginnings. That is a strict order in which any two paths have their place, so
there is only one way to list some paths in ascending order, each of them once.
Together with `Discovery.mem_sortDistinct` this settles what a search gives: the
paths are determined by which of them are found, whatever the order in which the
directories were read.

## Main definitions

* `Discovery.Ascending`: Paths in ascending order, each of them once.

## Theorems

* `comesBefore_irrefl`, `comesBefore_trans`, `comesBefore_total`: A strict order
  of all paths.
* `sortDistinct_ascending`: Sorting gives ascending paths.
* `ascending_unique`: Ascending paths are determined by which they are.
* `gather_eq_ok`, `gather_eq_error`: What is gathered, and what stops a gathering.
* `exists_discover_ok_iff`: A search and those for its single entries.
* `discover_ascending`: Definition files are found in ascending order.
-/

namespace ClientPlan

namespace Discovery

/-- Paths in ascending order, each of them once. -/
def Ascending (paths : List Path) : Prop :=
  paths.Pairwise fun p q => comesBefore p q = true

theorem comesBefore_irrefl (p : Path) : comesBefore p p = false := by
  induction p with
  | nil => rfl
  | cons c p ih => rw [comesBefore, if_pos rfl, ih]

theorem comesBefore_trans (p q r : Path) (h : comesBefore p q = true)
    (h' : comesBefore q r = true) : comesBefore p r = true := by
  induction p generalizing q r with
  | nil =>
      cases r with
      | nil =>
          cases q with
          | nil => exact h'
          | cons d q => cases h'
      | cons e r => rfl
  | cons c p ih =>
      cases q with
      | nil => cases h
      | cons d q =>
          cases r with
          | nil => cases h'
          | cons e r =>
              simp only [comesBefore] at h h' ⊢
              -- The first difference between neighbours decides between the ends.
              by_cases hcd : c = d
              · subst hcd
                rw [if_pos rfl] at h
                by_cases hce : c = e
                · rw [if_pos hce] at h' ⊢
                  exact ih q r h h'
                · rw [if_neg hce] at h' ⊢
                  exact h'
              · rw [if_neg hcd, decide_eq_true_eq] at h
                by_cases hde : d = e
                · subst hde
                  rw [if_neg hcd, decide_eq_true_eq]
                  exact h
                · rw [if_neg hde, decide_eq_true_eq] at h'
                  -- The numbers go up twice, so the first and the last differ.
                  have hce : c ≠ e := by
                    intro hce
                    rw [hce] at h
                    omega
                  rw [if_neg hce, decide_eq_true_eq]
                  omega

theorem comesBefore_total (p q : Path) (h : p ≠ q) :
    comesBefore p q = true ∨ comesBefore q p = true := by
  -- By induction on both paths: the first characters that differ decide.
  induction p generalizing q with
  | nil =>
      cases q with
      | nil => exact absurd rfl h
      | cons d q => exact Or.inl rfl
  | cons c p ih =>
      cases q with
      | nil => exact Or.inr rfl
      | cons d q =>
          simp only [comesBefore]
          by_cases hcd : c = d
          · subst hcd
            rw [if_pos rfl, if_pos rfl]
            exact ih q fun hpq => h (by rw [hpq])
          · rw [if_neg hcd, if_neg (Ne.symm hcd), decide_eq_true_eq, decide_eq_true_eq]
            have hnumber : c.toNat ≠ d.toNat := fun hnumber => hcd (Char.toNat_inj.1 hnumber)
            omega

theorem insertSorted_ascending (p : Path) (paths : List Path) (h : Ascending paths) :
    Ascending (insertSorted p paths) := by
  induction paths with
  | nil => exact List.pairwise_singleton _ p
  | cons q paths ih =>
      rcases List.pairwise_cons.1 h with ⟨hq, hpaths⟩
      unfold insertSorted
      split
      · exact h
      split
      · rename_i hbefore
        refine List.pairwise_cons.2 ⟨?_, h⟩
        intro r hr
        rcases List.mem_cons.1 hr with rfl | hr
        · exact hbefore
        · exact comesBefore_trans p q r hbefore (hq r hr)
      · rename_i hne hbefore
        -- The new path comes behind the first one, which stays the first.
        refine List.pairwise_cons.2 ⟨?_, ih hpaths⟩
        intro r hr
        rcases (mem_insertSorted p r paths).1 hr with rfl | hr
        · exact (comesBefore_total r q hne).resolve_left hbefore
        · exact hq r hr

theorem sortDistinct_ascending (paths : List Path) : Ascending (sortDistinct paths) := by
  induction paths with
  | nil => exact List.Pairwise.nil
  | cons p paths ih => exact insertSorted_ascending p (sortDistinct paths) ih

theorem Ascending.nodup {paths : List Path} (h : Ascending paths) : paths.Nodup := by
  refine List.Pairwise.imp ?_ h
  rintro p q hpq rfl
  rw [comesBefore_irrefl] at hpq
  cases hpq

/-- There is one ascending list of some paths. -/
theorem ascending_unique (paths others : List Path) (h : Ascending paths)
    (h' : Ascending others) (hmem : ∀ p, p ∈ paths ↔ p ∈ others) : paths = others := by
  have hirrefl : Std.Irrefl fun p q : Path => comesBefore p q = true :=
    ⟨fun p => by rw [comesBefore_irrefl]; exact Bool.false_ne_true⟩
  -- Two paths that come before each other would come before themselves.
  have hantisymm : Std.Antisymm fun p q : Path => comesBefore p q = true :=
    ⟨fun p q hpq hqp => absurd (comesBefore_trans p q p hpq hqp) (hirrefl.irrefl p)⟩
  exact List.Pairwise.eq_of_mem_iff h h' hmem

/-- What is gathered is what the single searches find. -/
theorem gather_eq_ok (search : Path → Except FileSystem.Fault (List Path))
    (paths found : List Path) (h : gather search paths = .ok found) (p : Path) :
    p ∈ found ↔ ∃ path ∈ paths, ∃ some, search path = .ok some ∧ p ∈ some := by
  -- By induction on the paths, in whose order everything is gathered.
  induction paths generalizing found with
  | nil =>
      cases h
      simp only [List.not_mem_nil, false_and, exists_false]
  | cons path paths ih =>
      rw [gather] at h
      rcases hfirst : search path with fault | first
      · rw [hfirst] at h
        cases h
      rcases hrest : gather search paths with fault | rest
      · simp only [hfirst, hrest, reduceCtorEq] at h
      simp only [hfirst, hrest, Except.ok.injEq] at h
      rw [← h, List.mem_append, ih rest hrest]
      constructor
      · rintro (hp | ⟨q, hq, hfound⟩)
        · exact ⟨path, List.mem_cons_self, first, hfirst, hp⟩
        · exact ⟨q, List.mem_cons_of_mem path hq, hfound⟩
      · rintro ⟨q, hq, found, hfound, hp⟩
        rcases List.mem_cons.1 hq with rfl | hq
        · rw [hfirst, Except.ok.injEq] at hfound
          exact Or.inl (hfound ▸ hp)
        · exact Or.inr ⟨q, hq, found, hfound, hp⟩

/-- Something is gathered unless one of the single searches fails. -/
theorem exists_gather_ok_iff (search : Path → Except FileSystem.Fault (List Path))
    (paths : List Path) :
    (∃ found, gather search paths = .ok found) ↔
      ∀ path ∈ paths, ∃ some, search path = .ok some := by
  -- By induction on the paths: one search that fails is enough.
  induction paths with
  | nil => exact ⟨fun _ => List.forall_mem_nil _, fun _ => ⟨[], rfl⟩⟩
  | cons path paths ih =>
      rw [List.forall_mem_cons, ← ih, gather]
      rcases hfirst : search path with fault | first
      · simp only [reduceCtorEq, exists_false, false_and]
      · rcases hrest : gather search paths with fault | rest
        · simp only [reduceCtorEq, exists_false, and_false]
        · simp only [Except.ok.injEq, exists_eq', and_self]

/-- A search succeeds if it succeeds for each of its entries. -/
theorem exists_discover_ok_iff {s : Glob.Search} {root : Path} {paths exclusions : List Path} :
    (∃ sources, discover s root paths exclusions = .ok sources) ↔
      (∀ exclusion ∈ exclusions, ∃ excluded, excludedBy s root exclusion = .ok excluded) ∧
        ∀ path ∈ paths, ∃ found, searched s root path = .ok found := by
  rw [← exists_gather_ok_iff, ← exists_gather_ok_iff]
  unfold discover
  rcases gather (excludedBy s root) exclusions with fault | excluded
  · simp only [reduceCtorEq, exists_false, false_and]
  · rcases gather (searched s root) paths with fault | found
    · simp only [reduceCtorEq, exists_false, and_false]
    · simp only [Except.ok.injEq, exists_eq', and_self]

/-- What stops a gathering is what one of the single searches fails with. -/
theorem gather_eq_error (search : Path → Except FileSystem.Fault (List Path))
    (paths : List Path) (fault : FileSystem.Fault) (h : gather search paths = .error fault) :
    ∃ path ∈ paths, search path = .error fault := by
  induction paths with
  | nil => cases h
  | cons path paths ih =>
      rw [gather] at h
      rcases hfirst : search path with reason | first
      · simp only [hfirst, Except.error.injEq] at h
        exact ⟨path, List.mem_cons_self, h ▸ hfirst⟩
      rcases hrest : gather search paths with reason | rest
      · simp only [hfirst, hrest, Except.error.injEq] at h
        rcases ih (h ▸ hrest) with ⟨other, hother, hfault⟩
        exact ⟨other, List.mem_cons_of_mem path hother, hfault⟩
      · simp only [hfirst, hrest, reduceCtorEq] at h

/-- Definition files are found in ascending order. -/
theorem discover_ascending (s : Glob.Search) (root : Path) (paths exclusions sources : List Path)
    (h : discover s root paths exclusions = .ok sources) : Ascending sources := by
  unfold discover at h
  rcases hexcluded : gather (excludedBy s root) exclusions with fault | excluded
  · simp only [hexcluded, reduceCtorEq] at h
  rcases hfound : gather (searched s root) paths with fault | found
  · simp only [hexcluded, hfound, reduceCtorEq] at h
  simp only [hexcluded, hfound, Except.ok.injEq] at h
  rw [← h]
  exact sortDistinct_ascending _

end Discovery

end ClientPlan
