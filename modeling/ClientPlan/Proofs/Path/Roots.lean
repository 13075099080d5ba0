import ClientPlan.Proofs.Path.Below

/-!
# Where Paths Start

The slashes at the beginning of a path, and when two paths have one normal spelling.

An absolute path starts with a number of slashes of which its normal spelling keeps one
or two. They are what its first characters say, so they do not change when something is
put behind the path, or its last name is taken away. Beside them a normal spelling
consists of the address of the path: two paths have the same normal spelling if they
agree in both.

## Theorems

* `rootSlashes_append`: A path that becomes longer starts as before.
* `rootSlashes_directory`, `rootSlashes_join`: The directory of a path and what stands in
  a directory start as they do.
* `rootSlashes_absolute`: So does the normal spelling.
* `absolute_absolute`: A normal spelling is its own normal spelling.
* `absolute_eq_iff`: Paths with one normal spelling.
-/

namespace ClientPlan

namespace Path

/-- What is put behind a path does not change the slashes that it starts with, unless
    these are all of the path and more of them follow. -/
theorem rootSlashes_append (p q : Path) (h : isAbsolute q = false ∨ ∃ c ∈ p, c ≠ '/') :
    rootSlashes (p ++ q) = rootSlashes p := by
  -- The slashes end within the path, or nothing that follows is one.
  have hsame : (p ++ q).takeWhile (· == '/') = p.takeWhile (· == '/') := by
    rw [List.takeWhile_append]
    split
    · rename_i hlength
      have hall := (List.takeWhile_prefix _).eq_of_length hlength
      rw [hall]
      rcases h with hrelative | ⟨c, hc, hslash⟩
      · have hnone : q.takeWhile (· == '/') = [] := by
          cases q with
          | nil => rfl
          | cons d q =>
              refine List.takeWhile_cons_of_neg ?_
              rw [Bool.not_eq_true]
              exact hrelative
        rw [hnone, List.append_nil]
      · exact absurd (beq_iff_eq.1 (List.takeWhile_eq_self_iff.1 hall c hc)) hslash
    · rfl
  rw [rootSlashes, hsame, rootSlashes]

/-- The directory of a path starts like the path. -/
theorem rootSlashes_directory (p : Path) : rootSlashes (directory p) = rootSlashes p := by
  have hlast := isAbsolute_of_no_slash _ (slash_notMem_lastName p)
  have hp := rootSlashes_append (beginning p) (lastName p) (Or.inl hlast)
  rw [beginning_append_lastName] at hp
  rcases directory_append_slashes p with ⟨slashes, hbeginning, hslashes, -⟩
  by_cases hname : ∃ c ∈ directory p, c ≠ '/'
  · rw [hp, hbeginning, rootSlashes_append _ _ (Or.inr hname)]
  · -- Nothing is cut off from a beginning that consists of slashes.
    have hall : (beginning p).all (· == '/') = true := by
      rw [List.all_eq_true, hbeginning]
      intro c hc
      rw [beq_iff_eq]
      rcases List.mem_append.1 hc with hc | hc
      · by_contra hne
        exact hname ⟨c, hc, hne⟩
      · exact hslashes c hc
    have hdirectory : directory p = beginning p := by
      unfold directory
      exact if_pos hall
    rw [hp, hdirectory]

/-- What stands in a directory that starts at the root starts like the directory. -/
theorem rootSlashes_join (base p : Path) (hbase : isAbsolute base = true)
    (hp : isAbsolute p = false) : rootSlashes (join base p) = rootSlashes base := by
  have hne : base ≠ [] := by
    rintro rfl
    exact absurd hbase (by decide)
  rw [join, hp, if_neg Bool.false_ne_true]
  split
  · exact rootSlashes_append base p (Or.inl hp)
  · -- A slash is put behind a last character that is none.
    rename_i hend
    rw [not_or] at hend
    refine rootSlashes_append base _ (Or.inr ⟨base.getLast hne, List.getLast_mem hne, ?_⟩)
    intro hlast
    exact hend.2 (by rw [List.getLast?_eq_some_getLast hne, hlast])

/-- A normal spelling starts like the path that it spells. -/
theorem rootSlashes_absolute (cwd p : Path) (hcwd : isAbsolute cwd = true) :
    rootSlashes (absolute cwd p) = rootSlashes (join cwd p) := by
  have hnames := not_slash_head_ofSegments _ (isStep_of_mem_address cwd p)
  rw [absolute_eq cwd p hcwd, rootSlashes_append _ _ (Or.inl hnames)]
  rcases rootSlashes_cases _ (isAbsolute_join cwd p hcwd) with h | h
  · rw [h]
    rfl
  · rw [h]
    rfl

theorem join_of_isAbsolute (cwd p : Path) (hp : isAbsolute p = true) : join cwd p = p := by
  rw [join, if_pos hp]

/-- Nothing is left to be done for a normal spelling. -/
theorem absolute_absolute (cwd p : Path) (hcwd : isAbsolute cwd = true) :
    absolute cwd (absolute cwd p) = absolute cwd p := by
  rw [absolute_eq cwd (absolute cwd p) hcwd,
    join_of_isAbsolute cwd _ (isAbsolute_absolute cwd p hcwd), rootSlashes_absolute cwd p hcwd,
    address_absolute cwd p hcwd, absolute_eq cwd p hcwd]

/-- Two paths have the same normal spelling if they start alike and lead to one
    address. -/
theorem absolute_eq_iff (cwd p q : Path) (hcwd : isAbsolute cwd = true) :
    absolute cwd p = absolute cwd q ↔
      rootSlashes (join cwd p) = rootSlashes (join cwd q) ∧ address cwd p = address cwd q := by
  constructor
  · intro h
    refine ⟨?_, ?_⟩
    · rw [← rootSlashes_absolute cwd p hcwd, h, rootSlashes_absolute cwd q hcwd]
    · rw [← names_absolute cwd p hcwd, h, names_absolute cwd q hcwd]
  · rintro ⟨hslashes, haddress⟩
    exact absolute_eq_of_address cwd p q hcwd haddress hslashes

end Path

end ClientPlan
