import ClientPlan.Proofs.Path.Address
import ClientPlan.Proofs.Path.Below

/-!
# Clean Spellings

The segments of a path that lead anywhere, and the spelling that consists of them.

Empty segments and those that stand for the directory itself lead nowhere. A clean
spelling leaves them out and keeps the others, steps up included, so that a path and its
clean spelling go through the same steps from wherever they are seen.

## Main definitions

* `Path.steps`: The segments of a path that lead anywhere.

## Theorems

* `steps_join`: The steps of a path that is seen from another one.
* `segments_clean`: The segments of a clean spelling.
* `steps_join_clean`: A path and its clean spelling have the same steps.
* `lastName_clean`: They have the same last name, if it is a step.
* `mem_clean`: The characters of a clean spelling.
-/

namespace ClientPlan

namespace Path

/-- The segments of a path that lead anywhere: they are not empty and do not stand for
    the directory itself. -/
def steps (p : Path) : List Name :=
  (segments p).filter fun name => name ≠ [] ∧ name ≠ here

theorem mem_steps_iff (p : Path) (name : Name) :
    name ∈ steps p ↔ name ∈ segments p ∧ name ≠ [] ∧ name ≠ here := by
  rw [steps, List.mem_filter, decide_eq_true_eq]

theorem steps_eq_filter_names (p : Path) :
    steps p = (names p).filter fun name => name ≠ here := by
  rw [steps, names, List.filter_filter]
  refine List.filter_congr fun name _ => ?_
  rw [Bool.and_comm, ← Bool.decide_and]

theorem steps_join (cwd p : Path) :
    steps (join cwd p) = if isAbsolute p then steps p else steps cwd ++ steps p := by
  simp only [steps_eq_filter_names, names_join]
  split
  · rfl
  · exact List.filter_append _ _

/-- Slashes in front of a path add empty segments. -/
theorem exists_segments_slashes (slashes p : Path) (h : ∀ c ∈ slashes, c = '/') :
    ∃ start, segments (slashes ++ p) = start ++ segments p ∧ ∀ name ∈ start, name = [] := by
  induction slashes with
  | nil => exact ⟨[], rfl, List.forall_mem_nil _⟩
  | cons c slashes ih =>
      rcases ih fun d hd => h d (List.mem_cons_of_mem c hd) with ⟨start, hstart, hempty⟩
      refine ⟨[] :: start, ?_, List.forall_mem_cons.2 ⟨rfl, hempty⟩⟩
      rw [List.cons_append, segments, if_pos (h c List.mem_cons_self), hstart, List.cons_append]

/-- A clean spelling has the steps of the path, behind the slashes that it starts
    with. -/
theorem segments_clean (p : Path) (h : steps p ≠ []) :
    ∃ start, segments (clean p) = start ++ steps p ∧ ∀ name ∈ start, name = [] := by
  have hslash : ∀ name ∈ steps p, '/' ∉ name := fun name hname =>
    slash_notMem_of_mem_segments p name ((mem_steps_iff p name).1 hname).1
  have hsegments := segments_ofSegments (steps p) h hslash
  rcases exists_segments_slashes (rootSlashes p) (ofSegments (steps p))
    (slashes_of_rootSlashes p) with ⟨start, hstart, hempty⟩
  rw [hsegments] at hstart
  -- There is a step, so the spelling is not empty.
  have hne : rootSlashes p ++ ofSegments (steps p) ≠ [] := by
    intro hnil
    rw [hnil] at hstart
    rcases List.eq_nil_or_concat' (steps p) with hnone | ⟨front, name, hfront⟩
    · exact h hnone
    · have hname := (mem_steps_iff p name).1 (by
        rw [hfront]
        exact List.mem_append_right front (List.mem_singleton.2 rfl))
      rw [hfront, ← List.append_assoc] at hstart
      have hlast := congrArg List.getLast? hstart
      rw [List.getLast?_concat, segments, List.getLast?_singleton, Option.some.injEq] at hlast
      exact hname.2.1 hlast.symm
  refine ⟨start, ?_, hempty⟩
  rw [clean, ← steps, orHere_of_ne_nil _ hne, hstart]

theorem steps_clean (p : Path) (h : steps p ≠ []) : steps (clean p) = steps p := by
  rcases segments_clean p h with ⟨start, hsegments, hempty⟩
  have hstart : start.filter (fun name => name ≠ [] ∧ name ≠ here) = [] := by
    refine List.filter_eq_nil_iff.2 fun name hname => ?_
    rw [hempty name hname]
    decide
  rw [steps, hsegments, List.filter_append, hstart, List.nil_append, steps, List.filter_filter]
  simp only [Bool.and_self]

theorem isAbsolute_clean (p : Path) (h : steps p ≠ []) : isAbsolute (clean p) = isAbsolute p := by
  by_cases habsolute : isAbsolute p = true
  · -- The slashes at the beginning are kept.
    have hslashes : ∃ rest, rootSlashes p = '/' :: rest := by
      rcases rootSlashes_cases p habsolute with hone | htwo
      · exact ⟨[], hone⟩
      · exact ⟨['/'], htwo⟩
    rcases hslashes with ⟨rest, hrest⟩
    rw [habsolute, clean, hrest, List.cons_append, orHere_of_ne_nil _ (List.cons_ne_nil _ _)]
    rfl
  · rw [Bool.not_eq_true] at habsolute
    have hslashes : rootSlashes p = [] := by
      cases p with
      | nil => rfl
      | cons c p =>
          have hc : ¬(c == '/') = true := by
            rw [Bool.not_eq_true]
            exact habsolute
          rw [rootSlashes, List.takeWhile_cons, if_neg hc]
          rfl
    -- Without slashes in front the first step begins the path.
    have hrelative : isAbsolute (ofSegments (steps p)) = false := by
      refine isAbsolute_ofSegments (steps p) fun name hname => ?_
      rcases (mem_steps_iff p name).1 hname with ⟨hsegment, hne, -⟩
      exact ⟨hne, slash_notMem_of_mem_segments p name hsegment⟩
    rw [habsolute, clean, hslashes, List.nil_append, ← steps, orHere]
    split
    · rfl
    · exact hrelative

/-- A path and its clean spelling have the same steps, wherever they are seen from. -/
theorem steps_join_clean (cwd p : Path) (h : steps p ≠ []) :
    steps (join cwd (clean p)) = steps (join cwd p) := by
  rw [steps_join, steps_join, steps_clean p h, isAbsolute_clean p h]

/-- The steps of a path end in its last name, if that is one. -/
theorem exists_steps_lastName (p : Path) (hne : lastName p ≠ []) (hhere : lastName p ≠ here) :
    ∃ front, steps p = front ++ [lastName p] := by
  rcases exists_segments_lastName p with ⟨start, hstart⟩
  refine ⟨start.filter fun name => name ≠ [] ∧ name ≠ here, ?_⟩
  have hlast : ([lastName p].filter fun name => name ≠ [] ∧ name ≠ here) = [lastName p] :=
    List.filter_eq_self.2 (List.forall_mem_singleton.2 (decide_eq_true ⟨hne, hhere⟩))
  rw [steps, hstart, List.filter_append, hlast]

theorem lastName_clean (p : Path) (hne : lastName p ≠ []) (hhere : lastName p ≠ here) :
    lastName (clean p) = lastName p := by
  rcases exists_steps_lastName p hne hhere with ⟨front, hfront⟩
  have hsteps : steps p ≠ [] := by
    rw [hfront]
    exact List.append_ne_nil_of_right_ne_nil front (List.cons_ne_nil _ [])
  rcases segments_clean p hsteps with ⟨start, hsegments, -⟩
  rcases exists_segments_lastName (clean p) with ⟨rest, hrest⟩
  rw [hsegments, hfront, ← List.append_assoc] at hrest
  exact (List.cons.inj (List.append_inj' hrest rfl).2).1.symm

theorem mem_clean (p : Path) (c : Char) (h : c ∈ clean p) : c = '/' ∨ c = '.' ∨ c ∈ p := by
  unfold clean orHere at h
  split at h
  · rw [List.mem_singleton.1 h]
    exact Or.inr (Or.inl rfl)
  · rcases List.mem_append.1 h with hroot | hnames
    · exact Or.inl (slashes_of_rootSlashes p c hroot)
    · rcases mem_ofSegments _ c hnames with hslash | ⟨name, hname, hmem⟩
      · exact Or.inl hslash
      · exact Or.inr (Or.inr (mem_of_mem_segments p name (List.mem_filter.1 hname).1 c hmem))

end Path

end ClientPlan
