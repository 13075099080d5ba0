import ClientPlan.Proofs.Path.Below

/-!
# Tidy Spellings

Paths that are spelled without detours.

A path is tidy if it has no repeated slashes and does not mention the directory that it
has reached or the one above. Tidiness is looked up in the path as it is written, so it
is handed on from a directory to what is put behind it, and from a path to its directory.
A directory may end in a slash: what is put behind it takes that slash over.

The names of a tidy path are its way from where it starts. So among the tidy paths that
start alike no two lead to the same place, unless one of them ends in a slash.

## Main definitions

* `Path.IsTidy`: A path without detours.

## Theorems

* `segments_join`: What a path is put behind.
* `IsTidy.join`, `IsTidy.directory`: What is below a directory, and the directory itself.
* `IsTidy.address_eq`: Where a tidy path leads.
* `IsTidy.eq_of_address`: Tidy paths to one place.
-/

namespace ClientPlan

namespace Path

/-- A path without detours: no two of its slashes follow one another, and no name in it
    stands for the directory that is reached or the one above. -/
def IsTidy (p : Path) : Prop :=
  [] ∉ (segments p).dropLast.tail ∧ here ∉ segments p ∧ up ∉ segments p

instance (p : Path) : Decidable (IsTidy p) :=
  inferInstanceAs (Decidable ([] ∉ (segments p).dropLast.tail ∧ here ∉ segments p ∧
    up ∉ segments p))

/-- The segments of a path that are kept in front of what is put behind it. -/
def kept (p : Path) : List Name :=
  if lastName p = [] then (segments p).dropLast else segments p

theorem segments_join (base p : Path) (h : isAbsolute p = false) :
    segments (join base p) = kept base ++ segments p := by
  rw [join, h, if_neg Bool.false_ne_true, kept]
  by_cases hend : base = [] ∨ base.getLast? = some '/'
  · rw [if_pos hend, if_pos ((lastName_eq_nil_iff base).2 hend)]
    rcases hend with rfl | hlast
    · rfl
    · rcases List.getLast?_eq_some_iff.1 hlast with ⟨q, rfl⟩
      have hsegments : segments (q ++ ['/']) = segments q ++ [[]] := segments_append_slash q []
      rw [hsegments, List.dropLast_concat, List.append_assoc, List.singleton_append,
        segments_append_slash]
  · rw [if_neg hend, if_neg fun hlast => hend ((lastName_eq_nil_iff base).1 hlast),
      segments_append_slash]

/-- Nothing but the first of the kept segments of a tidy path is empty. -/
theorem IsTidy.kept {p : Path} (h : IsTidy p) :
    [] ∉ (kept p).tail ∧ here ∉ kept p ∧ up ∉ kept p := by
  rcases h with ⟨hempty, hhere, hup⟩
  unfold Path.kept
  -- An empty last segment is dropped, and any other one is a name.
  split
  · exact ⟨hempty, fun hmem => hhere (List.mem_of_mem_dropLast hmem),
      fun hmem => hup (List.mem_of_mem_dropLast hmem)⟩
  · rename_i hlast
    refine ⟨?_, hhere, hup⟩
    rcases exists_segments_lastName p with ⟨start, hstart⟩
    rw [hstart, List.dropLast_concat] at hempty
    rw [hstart]
    cases start with
    | nil => exact List.not_mem_nil
    | cons first start =>
        rw [List.cons_append, List.tail_cons, List.mem_append, List.mem_singleton, not_or]
        exact ⟨hempty, fun hnil => hlast hnil.symm⟩

/-- What is put behind a tidy path by names that lead down is tidy. -/
theorem IsTidy.join {base : Path} (h : IsTidy base) (names : List Name)
    (hnames : ∀ name ∈ names, IsStep name) : IsTidy (join base (ofSegments names)) := by
  rcases h.kept with ⟨hempty, hhere, hup⟩
  have hsegments : segments (ofSegments names) = if names = [] then [[]] else names := by
    split
    · rename_i hnil
      rw [hnil]
      rfl
    · rename_i hne
      exact segments_ofSegments names hne fun name hname => (hnames name hname).2.2.2
  -- Only the last segment of what is put behind can be empty.
  have hbehind : ∀ name ∈ segments (ofSegments names), name ≠ here ∧ name ≠ up := by
    intro name hname
    rw [hsegments] at hname
    split at hname
    · rw [List.mem_singleton.1 hname]
      decide
    · exact ⟨(hnames name hname).2.1, (hnames name hname).2.2.1⟩
  have hlast : [] ∉ (segments (ofSegments names)).dropLast := by
    rw [hsegments]
    split
    · exact List.not_mem_nil
    · exact fun hmem => (hnames [] (List.mem_of_mem_dropLast hmem)).1 rfl
  rw [IsTidy, segments_join base _ (not_slash_head_ofSegments names hnames)]
  refine ⟨?_, ?_, ?_⟩
  · rw [List.dropLast_append_of_ne_nil (segments_ne_nil _)]
    cases hkept : Path.kept base with
    | nil => exact fun hmem => hlast (List.mem_of_mem_tail hmem)
    | cons first rest =>
        rw [hkept] at hempty
        rw [List.cons_append, List.tail_cons, List.mem_append, not_or]
        exact ⟨hempty, hlast⟩
  · rw [List.mem_append, not_or]
    exact ⟨hhere, fun hmem => (hbehind _ hmem).1 rfl⟩
  · rw [List.mem_append, not_or]
    exact ⟨hup, fun hmem => (hbehind _ hmem).2 rfl⟩

/-- What stands in front of a slash in a tidy path is tidy. -/
theorem IsTidy.of_append_slash {p rest : Path} (h : IsTidy (p ++ '/' :: rest)) : IsTidy p := by
  rw [IsTidy, segments_append_slash] at h
  rcases h with ⟨hempty, hhere, hup⟩
  refine ⟨fun hmem => hempty ?_, fun hmem => hhere (List.mem_append_left _ hmem),
    fun hmem => hup (List.mem_append_left _ hmem)⟩
  rw [List.dropLast_append_of_ne_nil (segments_ne_nil rest)]
  -- The segments of the front are there, and there is one more behind them.
  cases hsegments : segments p with
  | nil => exact absurd hsegments (segments_ne_nil p)
  | cons first segments =>
      rw [hsegments] at hmem
      rw [List.cons_append, List.tail_cons]
      refine List.mem_append_left _ ?_
      cases segments with
      | nil => cases hmem
      | cons second segments => exact List.mem_of_mem_dropLast hmem

theorem IsTidy.directory {p : Path} (h : IsTidy p) : IsTidy (directory p) := by
  rcases directory_cases p with ⟨-, slashes, -, hp⟩ | ⟨hp, hall⟩
  · rw [hp] at h
    exact h.of_append_slash
  · -- The directory consists of slashes, and there is at most one.
    rcases hdirectory : Path.directory p with _ | ⟨c, _ | ⟨d, rest⟩⟩
    · decide
    · rw [hall c (by rw [hdirectory]; exact List.mem_cons_self)]
      decide
    · rw [hdirectory, List.forall_mem_cons, List.forall_mem_cons] at hall
      rw [hp, hdirectory, hall.1, hall.2.1, List.cons_append, List.cons_append, IsTidy, segments,
        if_pos rfl, segments, if_pos rfl] at h
      refine absurd ?_ h.1
      rw [List.dropLast_cons_of_ne_nil (List.cons_ne_nil _ _), List.tail_cons,
        List.dropLast_cons_of_ne_nil (segments_ne_nil _)]
      exact List.mem_cons_self

/-- The names of a tidy path lead down. -/
theorem IsTidy.isStep {p : Path} (h : IsTidy p) (name : Name) (hname : name ∈ segments p)
    (hne : name ≠ []) : IsStep name :=
  ⟨hne, fun hhere => h.2.1 (hhere ▸ hname), fun hup => h.2.2 (hup ▸ hname),
    slash_notMem_of_mem_segments p name hname⟩

theorem IsTidy.isStep_lastName {p : Path} (h : IsTidy p) (hne : lastName p ≠ []) :
    IsStep (lastName p) := by
  rcases exists_segments_lastName p with ⟨start, hstart⟩
  exact h.isStep _ (by rw [hstart]; exact List.mem_append_right _ List.mem_cons_self) hne

/-- A tidy path that ends in a name consists of its names, behind a slash if it starts at
    the root. -/
theorem IsTidy.segments_eq {p : Path} (h : IsTidy p) (hlast : lastName p ≠ []) :
    segments p = (if isAbsolute p then [[]] else []) ++ names p := by
  have hempty := h.kept.1
  rw [Path.kept, if_neg hlast] at hempty
  cases p with
  | nil => exact absurd rfl hlast
  | cons c p =>
      -- Only the first segment can be empty, and it is if the path starts at the root.
      have hkeep : ∀ rest : List Name, [] ∉ rest →
          (rest.filter fun name => name ≠ []) = rest := by
        intro rest hrest
        refine List.filter_eq_self.2 fun name hname => decide_eq_true ?_
        rintro rfl
        exact hrest hname
      rw [names]
      by_cases hc : c = '/'
      · rw [hc, segments, if_pos rfl] at hempty ⊢
        rw [List.tail_cons] at hempty
        rw [List.filter_cons_of_neg (by decide), hkeep _ hempty]
        rfl
      · have habsolute : ¬isAbsolute (c :: p) = true := fun hroot => hc (by
          simpa only [isAbsolute, List.head?_cons, Option.some_beq_some, beq_iff_eq] using hroot)
        rw [if_neg habsolute, List.nil_append]
        rcases hp : segments p with _ | ⟨name, rest⟩
        · exact absurd hp (segments_ne_nil p)
        · simp only [segments, if_neg hc, hp, List.tail_cons] at hempty ⊢
          exact (hkeep _ (List.not_mem_cons_of_ne_of_not_mem (List.cons_ne_nil c name).symm
            hempty)).symm

/-- A tidy path leads along its names from where it starts. -/
theorem IsTidy.address_eq {p : Path} (h : IsTidy p) (cwd : Path) :
    address cwd p = (if isAbsolute p then [] else follow (names cwd)) ++ names p := by
  -- No name is passed by, and none leads up.
  have hsteps : ∀ name ∈ names p, IsStep name := by
    intro name hname
    rw [names, List.mem_filter, decide_eq_true_eq] at hname
    exact h.isStep name hname.1 hname.2
  rw [address, names_join]
  split
  · rw [follow, foldl_further_of_isStep _ _ hsteps]
  · rw [follow_append, foldl_further_of_isStep _ _ hsteps]

/-- Of the tidy paths that start alike, no two that end in a name lead to one place. -/
theorem IsTidy.eq_of_address {p q : Path} (hp : IsTidy p) (hq : IsTidy q)
    (hlast : lastName p ≠ []) (hlast' : lastName q ≠ []) (hstart : isAbsolute p = isAbsolute q)
    (cwd : Path) (h : address cwd p = address cwd q) : p = q := by
  rw [hp.address_eq, hq.address_eq, hstart] at h
  have hnames := List.append_cancel_left h
  have hsegments : segments p = segments q := by
    rw [hp.segments_eq hlast, hq.segments_eq hlast', hstart, hnames]
  rw [← ofSegments_segments p, hsegments, ofSegments_segments]

end Path

end ClientPlan
