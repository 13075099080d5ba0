import Mathlib.Data.List.TakeWhile
import ClientPlan.Path.Relative

/-!
# Names in a Path

How the names in a path follow from the way it is put together.

Spelling a path differently by slashes changes none of its names, so the
functions that join and cut paths are described by what they do to the list of
names. Joining appends the lists, unless the second path starts at the root, and
cutting a path at its last slash cuts the list before the last name, if one
follows that slash.

## Main definitions

* `Path.beginning`: A path up to its last slash.

## Theorems

* `segments_append_slash`, `names_append_slash`: A slash between two paths.
* `names_of_no_slash`: A path without a slash is its only name, or has none.
* `directory_append`, `lastName_append`: Only the last name takes an ending.
* `join_append`: A joined path takes an ending like the path itself.
* `names_directory_append_lastName`: The two parts of a path have its names.
* `isAbsolute_directory`: The part before the last slash starts where the path
  does.
* `names_join`, `names_join_directory`: The names of a path in a directory.
* `exists_segments_join`, `getLast?_segments_join`: The segments of a path in a
  directory end in its own.
* `exists_segments_join_join`: The segments of a path below a directory.
* `lastName_join`, `mem_join`: The last name of a joined path, and its characters.
* `segments_ofSegments`: Names are the segments of the path that they spell.
* `directory_prefix`, `length_directory_lt`: A path begins with its directory.
* `lastName_eq_nil_iff`, `directory_cases`: Where a path has its slashes.
-/

namespace ClientPlan

namespace Path

theorem segments_append_slash (p q : Path) :
    segments (p ++ '/' :: q) = segments p ++ segments q := by
  induction p with
  | nil => simp only [List.nil_append, segments, if_true, List.cons_append]
  | cons c p ih =>
      -- A path has at least one segment, and its first character belongs to that.
      rcases hp : segments p with _ | ⟨name, names⟩
      · exact absurd hp (segments_ne_nil p)
      rw [hp] at ih
      by_cases hc : c = '/'
      · simp only [List.cons_append, segments, hc, if_true, ih, hp]
      · simp only [List.cons_append, segments, if_neg hc, ih, hp]

theorem names_append_slash (p q : Path) : names (p ++ '/' :: q) = names p ++ names q := by
  simp only [names, segments_append_slash, List.filter_append]

theorem names_nil : names [] = [] := rfl

theorem names_append_of_slashes (slashes p : Path) (h : ∀ c ∈ slashes, c = '/') :
    names (slashes ++ p) = names p := by
  induction slashes with
  | nil => rfl
  | cons c slashes ih =>
      -- The first slash cuts off a path without names.
      have hcut := names_append_slash [] (slashes ++ p)
      rw [List.nil_append, names_nil, List.nil_append] at hcut
      rw [h c List.mem_cons_self, List.cons_append, hcut]
      exact ih fun d hd => h d (List.mem_cons_of_mem c hd)

theorem names_of_slashes (p : Path) (h : ∀ c ∈ p, c = '/') : names p = [] := by
  have hnames := names_append_of_slashes p [] h
  rwa [List.append_nil, names_nil] at hnames

theorem names_append_slashes (p slashes : Path) (h : ∀ c ∈ slashes, c = '/') :
    names (p ++ slashes) = names p := by
  cases slashes with
  | nil => rw [List.append_nil]
  | cons c rest =>
      rw [h c List.mem_cons_self, names_append_slash,
        names_of_slashes rest fun d hd => h d (List.mem_cons_of_mem c hd), List.append_nil]

theorem slash_notMem_of_mem_segments (p : Path) (name : Name) (h : name ∈ segments p) :
    '/' ∉ name := by
  -- By induction on the path: a slash starts a new segment.
  induction p generalizing name with
  | nil =>
      rw [segments, List.mem_singleton] at h
      rw [h]
      exact List.not_mem_nil
  | cons c p ih =>
      rcases hp : segments p with _ | ⟨first, rest⟩
      · exact absurd hp (segments_ne_nil p)
      rw [hp] at ih
      by_cases hc : c = '/'
      · simp only [segments, if_pos hc, hp, List.mem_cons] at h
        rcases h with rfl | h
        · exact List.not_mem_nil
        · exact ih name (List.mem_cons.2 h)
      · simp only [segments, if_neg hc, hp, List.mem_cons] at h
        rcases h with rfl | h
        · rw [List.mem_cons, not_or]
          exact ⟨Ne.symm hc, ih first List.mem_cons_self⟩
        · exact ih name (List.mem_cons_of_mem first h)

theorem segments_of_no_slash (p : Path) (h : '/' ∉ p) : segments p = [p] := by
  induction p with
  | nil => rfl
  | cons c p ih =>
      rw [List.mem_cons, not_or] at h
      simp only [segments, if_neg (Ne.symm h.1), ih h.2]

theorem names_of_no_slash (p : Path) (h : '/' ∉ p) : names p = if p = [] then [] else [p] := by
  rw [names, segments_of_no_slash p h]
  by_cases hp : p = []
  · rw [if_pos hp, hp]
    rfl
  · rw [if_neg hp, List.filter_cons_of_pos (by simp only [ne_eq, hp, not_false_eq_true,
      decide_true]), List.filter_nil]

/-- The part of a path up to its last slash, that slash included. -/
def beginning (p : Path) : Path :=
  (p.reverse.dropWhile (· != '/')).reverse

theorem beginning_append_lastName (p : Path) : beginning p ++ lastName p = p := by
  rw [beginning, lastName, ← List.reverse_append, List.takeWhile_append_dropWhile,
    List.reverse_reverse]

theorem slash_notMem_lastName (p : Path) : '/' ∉ lastName p := by
  intro h
  have hne := List.mem_takeWhile_imp (List.mem_reverse.1 h)
  simp only [bne_self_eq_false, Bool.false_eq_true] at hne

/-- What stands before the last name ends in the slash at which it is cut off. -/
theorem beginning_eq (p : Path) : beginning p = [] ∨ ∃ q, beginning p = q ++ ['/'] := by
  rcases hcut : p.reverse.dropWhile (· != '/') with _ | ⟨c, rest⟩
  · exact Or.inl (by rw [beginning, hcut, List.reverse_nil])
  · refine Or.inr ⟨rest.reverse, ?_⟩
    -- The cut is made at the first character from the end that is a slash.
    have hc := List.head?_dropWhile_not (· != '/') p.reverse
    rw [hcut] at hc
    simp only [List.head?_cons, bne_eq_false_iff_eq] at hc
    rw [beginning, hcut, List.reverse_cons, hc]

/-- The slashes at its end are dropped from the beginning of a path, unless it
    consists of slashes. -/
theorem directory_append_slashes (p : Path) :
    ∃ slashes, beginning p = directory p ++ slashes ∧ (∀ c ∈ slashes, c = '/') ∧
      (directory p = [] → beginning p = []) := by
  -- A beginning of slashes only is kept as it is.
  by_cases hall : (beginning p).all (· == '/') = true
  · have hdir : directory p = beginning p := by
      unfold directory
      exact if_pos hall
    refine ⟨[], by rw [hdir, List.append_nil], ?_, by rw [hdir]; exact id⟩
    intro c hc
    cases hc
  · have hdir : directory p = ((beginning p).reverse.dropWhile (· == '/')).reverse := by
      unfold directory
      exact if_neg hall
    refine ⟨((beginning p).reverse.takeWhile (· == '/')).reverse, ?_, ?_, ?_⟩
    · rw [hdir, ← List.reverse_append, List.takeWhile_append_dropWhile, List.reverse_reverse]
    · intro c hc
      simpa only [beq_iff_eq] using List.mem_takeWhile_imp (List.mem_reverse.1 hc)
    · -- Nothing would be left only of a part that consists of slashes.
      intro hnil
      rw [hdir, List.reverse_eq_nil_iff, List.dropWhile_eq_nil_iff] at hnil
      refine absurd ?_ hall
      rw [List.all_eq_true]
      intro c hc
      exact hnil c (List.mem_reverse.2 hc)

theorem ne_slash_of_mem_reverse (p : Path) (h : '/' ∉ p) :
    ∀ c ∈ p.reverse, (c != '/') = true := by
  intro c hc
  rw [bne_iff_ne]
  rintro rfl
  exact h (List.mem_reverse.1 hc)

theorem directory_append (p ending : Path) (h : '/' ∉ ending) :
    directory (p ++ ending) = directory p := by
  unfold directory
  rw [List.reverse_append, List.dropWhile_append_of_pos (ne_slash_of_mem_reverse ending h)]

theorem lastName_append (p ending : Path) (h : '/' ∉ ending) :
    lastName (p ++ ending) = lastName p ++ ending := by
  unfold lastName
  rw [List.reverse_append, List.takeWhile_append_of_pos (ne_slash_of_mem_reverse ending h),
    List.reverse_append, List.reverse_reverse]

theorem directory_of_no_slash (p : Path) (h : '/' ∉ p) : directory p = [] := by
  have happend := directory_append [] p h
  rwa [List.nil_append] at happend

theorem lastName_of_no_slash (p : Path) (h : '/' ∉ p) : lastName p = p := by
  have happend := lastName_append [] p h
  rwa [List.nil_append] at happend

theorem names_directory_append_lastName (p : Path) :
    names p = names (directory p) ++ names (lastName p) := by
  rcases directory_append_slashes p with ⟨slashes, hbeginning, hslashes, -⟩
  -- The slashes between the two parts hold no name.
  have hdirectory : names (directory p) = names (beginning p) := by
    rw [hbeginning, names_append_slashes _ _ hslashes]
  have hp := beginning_append_lastName p
  rcases beginning_eq p with hnil | ⟨q, hq⟩
  · rw [hdirectory, hnil, names_nil, List.nil_append]
    rw [hnil, List.nil_append] at hp
    rw [hp]
  · rw [hdirectory, hq, names_append_slash, names_nil, List.append_nil, ← names_append_slash]
    rw [hq, List.append_assoc, List.singleton_append] at hp
    rw [hp]

theorem isAbsolute_append (p q : Path) (h : p ≠ []) : isAbsolute (p ++ q) = isAbsolute p := by
  cases p with
  | nil => exact absurd rfl h
  | cons c p => rfl

theorem isAbsolute_append_of_not (p ending : Path) (h : isAbsolute p = false)
    (hending : isAbsolute ending = false) : isAbsolute (p ++ ending) = false := by
  cases p with
  | nil => exact hending
  | cons c p => exact h

theorem isAbsolute_of_no_slash (p : Path) (h : '/' ∉ p) : isAbsolute p = false := by
  cases p with
  | nil => rfl
  | cons c p =>
      rw [List.mem_cons, not_or] at h
      simp only [isAbsolute, List.head?_cons, Option.some_beq_some, beq_eq_false_iff_ne]
      exact Ne.symm h.1

theorem isAbsolute_directory (p : Path) : isAbsolute (directory p) = isAbsolute p := by
  rcases directory_append_slashes p with ⟨slashes, hbeginning, -, hnil⟩
  have hp := beginning_append_lastName p
  by_cases hdirectory : directory p = []
  · -- All of the path is its last name.
    rw [hnil hdirectory, List.nil_append] at hp
    rw [hdirectory, ← hp, isAbsolute_of_no_slash _ (slash_notMem_lastName p)]
    rfl
  · rw [hbeginning, List.append_assoc] at hp
    rw [← isAbsolute_append (directory p) (slashes ++ lastName p) hdirectory, hp]

/-- An ending is taken along when a path is joined to a directory. -/
theorem join_append (base p ending : Path) (h : isAbsolute p = false)
    (hending : isAbsolute ending = false) : join base p ++ ending = join base (p ++ ending) := by
  rw [join, join, isAbsolute_append_of_not p ending h hending, h, if_neg Bool.false_ne_true,
    if_neg Bool.false_ne_true]
  split
  · rw [List.append_assoc]
  · rw [List.append_assoc, List.cons_append]

theorem isAbsolute_join_of_relative (base p : Path) (h : isAbsolute p = false) :
    isAbsolute (join base p) = isAbsolute base := by
  rw [join, h, if_neg Bool.false_ne_true]
  by_cases hbase : base = []
  · rw [if_pos (Or.inl hbase), hbase, List.nil_append, h]
    rfl
  · split
    · exact isAbsolute_append base p hbase
    · exact isAbsolute_append base _ hbase

theorem names_join (cwd p : Path) :
    names (join cwd p) = if isAbsolute p then names p else names cwd ++ names p := by
  by_cases habsolute : isAbsolute p = true
  · simp only [join, habsolute, if_true]
  · simp only [join, habsolute, Bool.false_eq_true, if_false]
    by_cases hend : cwd = [] ∨ cwd.getLast? = some '/'
    · rw [if_pos hend]
      -- Nothing is put between the two paths, but the first one ends in a slash.
      rcases hend with rfl | hlast
      · rw [names_nil, List.nil_append, List.nil_append]
      · rcases List.getLast?_eq_some_iff.1 hlast with ⟨q, rfl⟩
        rw [List.append_assoc, List.singleton_append, names_append_slash, names_append_slash,
          names_nil, List.append_nil]
    · rw [if_neg hend, names_append_slash]

/-- The last name of a path is behind those of the directory it stands in. -/
theorem names_join_directory (cwd p : Path) :
    names (join cwd p) = names (join cwd (directory p)) ++ names (lastName p) := by
  rw [names_join, names_join, isAbsolute_directory, names_directory_append_lastName p]
  split
  · rfl
  · rw [List.append_assoc]

theorem exists_segments_lastName (p : Path) : ∃ start, segments p = start ++ [lastName p] := by
  have hlast := segments_of_no_slash (lastName p) (slash_notMem_lastName p)
  have hp := beginning_append_lastName p
  rcases beginning_eq p with hnil | ⟨q, hq⟩
  · rw [hnil, List.nil_append] at hp
    exact ⟨[], by rw [← hlast, hp, List.nil_append]⟩
  · -- The last segment is what follows the slash at the end of the beginning.
    rw [hq, List.append_assoc, List.singleton_append] at hp
    exact ⟨segments q, by rw [← hlast, ← segments_append_slash, hp]⟩

theorem exists_segments_join (cwd p : Path) :
    ∃ start, segments (join cwd p) = start ++ segments p := by
  unfold join
  split
  · exact ⟨[], rfl⟩
  split
  · rename_i hend
    rcases hend with rfl | hlast
    · exact ⟨[], rfl⟩
    · -- The slash at the end of the first path stands between the two.
      rcases List.getLast?_eq_some_iff.1 hlast with ⟨q, rfl⟩
      exact ⟨segments q, by rw [List.append_assoc, List.singleton_append, segments_append_slash]⟩
  · exact ⟨segments cwd, segments_append_slash cwd p⟩

theorem getLast?_segments_join (cwd p : Path) :
    (segments (join cwd p)).getLast? = some (lastName p) := by
  rcases exists_segments_join cwd p with ⟨start, hstart⟩
  rcases exists_segments_lastName p with ⟨front, hfront⟩
  rw [hstart, hfront, ← List.append_assoc, List.getLast?_concat]

/-- A path that is seen from another one keeps its last name. -/
theorem lastName_join (base p : Path) : lastName (join base p) = lastName p := by
  rcases exists_segments_lastName (join base p) with ⟨start, hstart⟩
  have hlast := getLast?_segments_join base p
  rw [hstart, List.getLast?_concat, Option.some.injEq] at hlast
  exact hlast

/-- The directory of a path is what the path begins with. -/
theorem directory_prefix (p : Path) : directory p <+: p := by
  rcases directory_append_slashes p with ⟨slashes, hbeginning, -⟩
  have hp := beginning_append_lastName p
  rw [hbeginning, List.append_assoc] at hp
  exact ⟨_, hp⟩

theorem length_directory_lt (p : Path) (h : lastName p ≠ []) :
    (directory p).length < p.length := by
  rcases directory_append_slashes p with ⟨slashes, hbeginning, -⟩
  have hp := congrArg List.length (beginning_append_lastName p)
  rw [hbeginning, List.length_append, List.length_append] at hp
  have hlast := List.length_pos_iff.2 h
  omega

/-- The directory of a path ends in a name, unless it consists of slashes. -/
theorem directory_of_lastName_nil (p : Path) (h : lastName (directory p) = []) :
    ∀ c ∈ directory p, c = '/' := by
  by_cases hall : (beginning p).all (· == '/') = true
  · have hdirectory : directory p = beginning p := by
      unfold directory
      exact if_pos hall
    intro c hc
    rw [hdirectory] at hc
    simpa only [beq_iff_eq] using List.all_eq_true.1 hall c hc
  · have hdirectory : directory p = ((beginning p).reverse.dropWhile (· == '/')).reverse := by
      unfold directory
      exact if_neg hall
    -- What is left behind the slashes at the end would begin its last name.
    rw [lastName, List.reverse_eq_nil_iff, hdirectory, List.reverse_reverse] at h
    rcases hcut : (beginning p).reverse.dropWhile (· == '/') with _ | ⟨c, rest⟩
    · intro c hc
      rw [hdirectory, hcut] at hc
      cases hc
    · have hc := List.head?_dropWhile_not (· == '/') (beginning p).reverse
      rw [hcut] at hc h
      rw [List.takeWhile_cons] at h
      simp only [List.head?_cons, beq_eq_false_iff_ne, ne_eq] at hc
      simp only [bne_iff_ne, ne_eq, hc, not_false_eq_true, if_true, reduceCtorEq] at h

/-- The last name of a path is missing behind a slash, and from the empty path. -/
theorem lastName_eq_nil_iff (p : Path) : lastName p = [] ↔ p = [] ∨ p.getLast? = some '/' := by
  constructor
  · intro h
    have hp := beginning_append_lastName p
    rw [h, List.append_nil] at hp
    rcases beginning_eq p with hnil | ⟨q, hq⟩
    · exact Or.inl (hp ▸ hnil)
    · exact Or.inr (by rw [← hp, hq, List.getLast?_concat])
  · rintro (rfl | hlast)
    · rfl
    · rcases List.getLast?_eq_some_iff.1 hlast with ⟨q, rfl⟩
      rw [lastName, List.reverse_concat, List.takeWhile_cons_of_neg (by decide), List.reverse_nil]

/-- There are slashes between the directory of a path and its last name, unless the directory
    consists of slashes itself. -/
theorem directory_cases (p : Path) :
    (directory p ≠ [] ∧ ∃ slashes, (∀ c ∈ slashes, c = '/') ∧
      p = directory p ++ '/' :: (slashes ++ lastName p)) ∨
    p = directory p ++ lastName p ∧ ∀ c ∈ directory p, c = '/' := by
  -- What is dropped from the beginning decides between the two.
  rcases directory_append_slashes p with ⟨slashes, hbeginning, hslashes, hnil⟩
  have hp := beginning_append_lastName p
  cases slashes with
  | nil =>
      rw [List.append_nil] at hbeginning
      refine Or.inr ⟨by rw [← hbeginning, hp], directory_of_lastName_nil p ?_⟩
      rw [← hbeginning, lastName_eq_nil_iff]
      rcases beginning_eq p with hempty | ⟨q, hq⟩
      · exact Or.inl hempty
      · exact Or.inr (by rw [hq, List.getLast?_concat])
  | cons c slashes =>
      refine Or.inl ⟨fun hempty => ?_, slashes,
        fun d hd => hslashes d (List.mem_cons_of_mem c hd), ?_⟩
      · rw [hnil hempty, hempty] at hbeginning
        cases hbeginning
      · rw [hbeginning, hslashes c List.mem_cons_self, List.append_assoc, List.cons_append] at hp
        exact hp.symm

/-- What is put in front of a path depends on its first character only. -/
theorem exists_join_eq (base p : Path) :
    ∃ front, join base p = front ++ p ∧
      (p ≠ [] → ∀ ending, join base (p ++ ending) = front ++ p ++ ending) := by
  -- In front there is nothing, the base, or the base and a slash.
  by_cases habsolute : isAbsolute p = true
  · refine ⟨[], by rw [join, if_pos habsolute, List.nil_append], ?_⟩
    intro hp ending
    rw [join, isAbsolute_append p ending hp, if_pos habsolute, List.nil_append]
  by_cases hend : base = [] ∨ base.getLast? = some '/'
  · refine ⟨base, by rw [join, if_neg habsolute, if_pos hend], ?_⟩
    intro hp ending
    rw [join, isAbsolute_append p ending hp, if_neg habsolute, if_pos hend, List.append_assoc]
  · refine ⟨base ++ ['/'], ?_, ?_⟩
    · rw [join, if_neg habsolute, if_neg hend, List.append_assoc, List.singleton_append]
    · intro hp ending
      rw [join, isAbsolute_append p ending hp, if_neg habsolute, if_neg hend, List.append_assoc,
        List.append_assoc, List.singleton_append]

/-- The segments of a path below a directory are those of the directory, up to a slash
    at its end, and then its own. -/
theorem exists_segments_join_join (cwd dir p : Path) (h : isAbsolute p = false) :
    ∃ start slash, segments (join cwd dir) = start ++ slash ∧ (slash = [] ∨ slash = [[]]) ∧
      segments (join cwd (join dir p)) = start ++ segments p := by
  have hp : ¬ isAbsolute p = true := by
    rw [h]
    exact Bool.false_ne_true
  have hnil : isAbsolute [] = false := rfl
  by_cases hdir : dir = []
  · -- The path is seen from the working directory itself.
    have hseen : join [] p = p := by
      rw [join, if_neg hp, if_pos (Or.inl rfl), List.nil_append]
    rw [hdir, hseen, join, join, if_neg hp, hnil, if_neg Bool.false_ne_true]
    by_cases hend : cwd = [] ∨ cwd.getLast? = some '/'
    · rw [if_pos hend, if_pos hend, List.append_nil]
      rcases hend with rfl | hlast
      · exact ⟨[], [[]], rfl, Or.inr rfl, rfl⟩
      · rcases List.getLast?_eq_some_iff.1 hlast with ⟨q, rfl⟩
        refine ⟨segments q, [[]], segments_append_slash q [], Or.inr rfl, ?_⟩
        rw [List.append_assoc, List.singleton_append, segments_append_slash]
    · rw [if_neg hend, if_neg hend]
      exact ⟨segments cwd, [[]], segments_append_slash cwd [], Or.inr rfl,
        segments_append_slash cwd p⟩
  -- The directory is seen behind the same characters as the path in it.
  rcases exists_join_eq cwd dir with ⟨front, hfront, hrest⟩
  rw [hfront]
  by_cases hlast : dir.getLast? = some '/'
  · rcases List.getLast?_eq_some_iff.1 hlast with ⟨q, rfl⟩
    refine ⟨segments (front ++ q), [[]], ?_, Or.inr rfl, ?_⟩
    · rw [← List.append_assoc]
      exact segments_append_slash _ []
    · have hjoin : join (q ++ ['/']) p = q ++ ['/'] ++ p := by
        rw [join, if_neg hp, if_pos (Or.inr hlast)]
      rw [hjoin, hrest hdir, ← List.append_assoc, List.append_assoc _ ['/'],
        List.singleton_append, segments_append_slash]
  · have hend : ¬(dir = [] ∨ dir.getLast? = some '/') := not_or.2 ⟨hdir, hlast⟩
    refine ⟨segments (front ++ dir), [], (List.append_nil _).symm, Or.inl rfl, ?_⟩
    have hjoin : join dir p = dir ++ '/' :: p := by
      rw [join, if_neg hp, if_neg hend]
    rw [hjoin, hrest hdir, segments_append_slash]

/-- Names without slashes are the segments of the path that they spell. -/
theorem segments_ofSegments (names : List Name) (hne : names ≠ [])
    (h : ∀ name ∈ names, '/' ∉ name) : segments (ofSegments names) = names := by
  induction names with
  | nil => exact absurd rfl hne
  | cons name names ih =>
      have hfirst := segments_of_no_slash name (h name List.mem_cons_self)
      -- No slash is put behind the last name.
      cases names with
      | nil => exact hfirst
      | cons next names =>
          rw [ofSegments, segments_append_slash, hfirst,
            ih (List.cons_ne_nil next names) fun n hn => h n (List.mem_cons_of_mem name hn),
            List.singleton_append]
          exact List.cons_ne_nil next names

/-- Every character of a path but a slash stands in one of its segments. -/
theorem exists_segment_of_mem (p : Path) (c : Char) (hc : c ∈ p) (hslash : c ≠ '/') :
    ∃ name ∈ segments p, c ∈ name := by
  -- By induction on the path: its first character stands in the first segment.
  induction p with
  | nil => cases hc
  | cons d p ih =>
      rcases hp : segments p with _ | ⟨first, rest⟩
      · exact absurd hp (segments_ne_nil p)
      rw [hp] at ih
      by_cases hd : d = '/'
      · rw [segments, if_pos hd, hp]
        rcases List.mem_cons.1 hc with rfl | hc
        · exact absurd hd hslash
        · rcases ih hc with ⟨name, hname, hmem⟩
          exact ⟨name, List.mem_cons_of_mem _ hname, hmem⟩
      · simp only [segments, if_neg hd, hp]
        rcases List.mem_cons.1 hc with rfl | hc
        · exact ⟨c :: first, List.mem_cons_self, List.mem_cons_self⟩
        · rcases ih hc with ⟨name, hname, hmem⟩
          rcases List.mem_cons.1 hname with rfl | hname
          · exact ⟨d :: name, List.mem_cons_self, List.mem_cons_of_mem d hmem⟩
          · exact ⟨name, List.mem_cons_of_mem _ hname, hmem⟩

theorem mem_of_mem_segments (p : Path) (name : Name) (h : name ∈ segments p) (c : Char)
    (hc : c ∈ name) : c ∈ p := by
  induction p generalizing name with
  | nil =>
      rw [segments, List.mem_singleton] at h
      rwa [h] at hc
  | cons d p ih =>
      rcases hp : segments p with _ | ⟨first, rest⟩
      · exact absurd hp (segments_ne_nil p)
      rw [hp] at ih
      by_cases hd : d = '/'
      · rw [segments, if_pos hd, hp] at h
        rcases List.mem_cons.1 h with rfl | h
        · cases hc
        · exact List.mem_cons_of_mem d (ih name h hc)
      · simp only [segments, if_neg hd, hp] at h
        rcases List.mem_cons.1 h with rfl | h
        · -- The first segment has taken the first character.
          rcases List.mem_cons.1 hc with rfl | hc
          · exact List.mem_cons_self
          · exact List.mem_cons_of_mem d (ih first List.mem_cons_self hc)
        · exact List.mem_cons_of_mem d (ih name (List.mem_cons_of_mem first h) hc)

/-- The last of the names that a path has as seen from a directory is its own. -/
theorem mem_segments_of_names_join (cwd p : Path) (front : List Name) (name : Name) (hp : p ≠ [])
    (h : names (join cwd p) = front ++ [name]) : name ∈ segments p := by
  have hown : name ∈ names p := by
    rw [names_join] at h
    split at h
    · rw [h]
      exact List.mem_append_right front (List.mem_singleton.2 rfl)
    · rename_i hrelative
      -- A path without names would start at the root.
      have hne : names p ≠ [] := by
        intro hnil
        refine hrelative ?_
        cases p with
        | nil => exact absurd rfl hp
        | cons c p =>
            have hc : c = '/' := by
              by_contra hc
              rcases exists_segment_of_mem (c :: p) c List.mem_cons_self hc with ⟨n, hn, hmem⟩
              rw [names, List.filter_eq_nil_iff] at hnil
              exact hnil n hn (decide_eq_true (List.ne_nil_of_mem hmem))
            rw [hc]
            rfl
      have hlast := congrArg List.getLast? h
      rw [List.getLast?_append, List.getLast?_concat, List.getLast?_eq_some_getLast hne,
        Option.some_or, Option.some.injEq] at hlast
      rw [← hlast]
      exact List.getLast_mem hne
  exact (List.mem_filter.1 hown).1

theorem mem_join (base p : Path) (c : Char) (h : c ∈ join base p) :
    c ∈ base ∨ c = '/' ∨ c ∈ p := by
  unfold join at h
  split at h
  · exact Or.inr (Or.inr h)
  split at h
  · rcases List.mem_append.1 h with h | h
    · exact Or.inl h
    · exact Or.inr (Or.inr h)
  · rcases List.mem_append.1 h with h | h
    · exact Or.inl h
    · exact Or.inr (List.mem_cons.1 h)

theorem mem_ofSegments (names : List Name) (c : Char) (h : c ∈ ofSegments names) :
    c = '/' ∨ ∃ name ∈ names, c ∈ name := by
  induction names with
  | nil => cases h
  | cons name names ih =>
      -- Slashes stand only between the names.
      cases names with
      | nil => exact Or.inr ⟨name, List.mem_cons_self, h⟩
      | cons next names =>
          rw [ofSegments, List.mem_append, List.mem_cons] at h
          · rcases h with h | h | h
            · exact Or.inr ⟨name, List.mem_cons_self, h⟩
            · exact Or.inl h
            · rcases ih h with hslash | ⟨n, hn, hc⟩
              · exact Or.inl hslash
              · exact Or.inr ⟨n, List.mem_cons_of_mem name hn, hc⟩
          · exact List.cons_ne_nil next names

end Path

end ClientPlan
