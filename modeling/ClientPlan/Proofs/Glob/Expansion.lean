import ClientPlan.Glob.Expand
import ClientPlan.Proofs.FileSystem.Growth
import ClientPlan.Proofs.Glob.Ending
import ClientPlan.Proofs.Path.Below

/-!
# What a Pattern Stands For

The paths that a pattern is expanded to, as a relation.

An expansion goes from the outer parts of a pattern to its last one, and each step
looks into the file system. `Finds` says what the last part stands for in one
directory, and `Stands` what the whole pattern does; both have one rule for each way to
come upon a path. What they say of a path is what has to be there for the search to
find it, and how the last name of the path comes from the last part of the pattern.

## Main definitions

* `Search.Finds`: What a last part stands for in a directory.
* `Search.Stands`: What a pattern stands for.

## Theorems

* `mem_matching_iff`, `mem_expand_iff`: The searches find what the relations say.
* `exists_matching_ok`, `nul_notMem_of_matching`: When a search fails.
* `expand_eq_error`: Why an expansion fails.
* `expand_of_isPattern`, `expand_of_plain_directory`: The two ways to expand a pattern.
* `Search.Stands.suffix_lastName`: A plain ending of a pattern.
-/

namespace ClientPlan

namespace Glob

/-- What the last part of a pattern stands for in a directory, as paths from there. -/
inductive Search.Finds (s : Search) (onlyDirectories : Bool) (dir : Path) (part : Name) :
    Path → Prop
  | here (plain : isPattern part = false) (empty : part = [])
      (there : s.fs.isDirectory s.cwd dir = true) : Finds s onlyDirectories dir part []
  | entry (plain : isPattern part = false) (named : part ≠ [])
      (there : s.fs.contains s.cwd (Path.join dir part) = true) :
      Finds s onlyDirectories dir part part
  | start (pattern : isPattern part = true) (deep : s.recursive = true ∧ part = anyDepth)
      (named : ¬(dir = [] ∧ onlyDirectories = false)) :
      Finds s onlyDirectories dir part []
  | below {base names : Address} {entry : Entry} (pattern : isPattern part = true)
      (deep : s.recursive = true ∧ part = anyDepth)
      (leads : s.fs.directory? s.cwd (Path.orHere dir) = some base) (down : names ≠ [])
      (there : s.fs.at? (base ++ names) = some entry)
      (short : FileSystem.isTooLong
        (Path.directory (Path.join dir (Path.ofSegments names))) = false)
      (asked : wanted onlyDirectories entry = true) (visible : names.any isHidden = false) :
      Finds s onlyDirectories dir part (Path.ofSegments names)
  | child {base : Address} {name : Name} {entry : Entry} (pattern : isPattern part = true)
      (shallow : ¬(s.recursive = true ∧ part = anyDepth))
      (leads : s.fs.directory? s.cwd (Path.orHere dir) = some base)
      (there : s.fs.at? (base ++ [name]) = some entry)
      (asked : wanted onlyDirectories entry = true)
      (visible : (isHidden part || !isHidden name) = true) (matched : fits part name = true) :
      Finds s onlyDirectories dir part name

/-- What a pattern stands for: itself without wildcards, and otherwise what its last part
    stands for, in the directory before that part or in each one that this stands for. -/
inductive Search.Stands (s : Search) : Bool → Path → Path → Prop
  | itself {onlyDirectories : Bool} {pattern : Path} (plain : isPattern pattern = false)
      (there : (if Path.lastName pattern = [] then
          s.fs.isDirectory s.cwd (Path.directory pattern)
        else s.fs.contains s.cwd pattern) = true) : Stands s onlyDirectories pattern pattern
  | beneath {onlyDirectories : Bool} {pattern dir p : Path} (wild : isPattern pattern = true)
      (before : isPattern (Path.directory pattern) = true)
      (stands : Stands s true (Path.directory pattern) dir)
      (found : s.Finds onlyDirectories dir (Path.lastName pattern) p) :
      Stands s onlyDirectories pattern (Path.join dir p)
  | within {onlyDirectories : Bool} {pattern p : Path} (wild : isPattern pattern = true)
      (before : isPattern (Path.directory pattern) = false)
      (askable : '\x00' ∉ Path.directory pattern)
      (found : s.Finds onlyDirectories (Path.directory pattern) (Path.lastName pattern) p) :
      Stands s onlyDirectories pattern (Path.join (Path.directory pattern) p)

theorem directory?_eq_ok (s : Search) (dir : Path) (found : Option Address)
    (h : s.directory? dir = .ok found) :
    '\x00' ∉ dir ∧ found = s.fs.directory? s.cwd (Path.orHere dir) := by
  unfold Search.directory? at h
  split at h
  · cases h
  · rename_i hnul
    cases h
    exact ⟨hnul, rfl⟩

theorem directory?_of_notMem (s : Search) (dir : Path) (h : '\x00' ∉ dir) :
    s.directory? dir = .ok (s.fs.directory? s.cwd (Path.orHere dir)) :=
  if_neg h

theorem directory?_eq_error (s : Search) (dir : Path) (fault : FileSystem.Fault)
    (h : s.directory? dir = .error fault) : fault = .nulInPath := by
  unfold Search.directory? at h
  split at h
  · exact (Except.error.inj h).symm
  · cases h

theorem mem_entryNames_iff (s : Search) (hfs : s.fs.WellFormed) (dir : Path)
    (onlyDirectories : Bool) (found : List Name) (h : s.entryNames dir onlyDirectories = .ok found)
    (name : Name) :
    name ∈ found ↔ ∃ base entry, s.fs.directory? s.cwd (Path.orHere dir) = some base ∧
      s.fs.at? (base ++ [name]) = some entry ∧ wanted onlyDirectories entry = true := by
  unfold Search.entryNames at h
  rcases hdir : s.directory? dir with fault | leads
  · rw [hdir] at h
    cases h
  -- A path that leads to no directory has no entries.
  rcases directory?_eq_ok s dir leads hdir with ⟨-, rfl⟩
  rw [hdir] at h
  cases h
  rcases hleads : s.fs.directory? s.cwd (Path.orHere dir) with _ | base
  · simp only [List.not_mem_nil, reduceCtorEq, false_and, exists_false]
  · simp only [List.mem_map, List.mem_filter, Option.some.injEq]
    constructor
    · rintro ⟨⟨n, entry⟩, ⟨hmem, hwanted⟩, rfl⟩
      exact ⟨base, entry, rfl, (hfs.mem_children_iff base _ _).1 hmem, hwanted⟩
    · rintro ⟨_, entry, rfl, hentry, hwanted⟩
      exact ⟨(name, entry), ⟨(hfs.mem_children_iff base _ _).2 hentry, hwanted⟩, rfl⟩

theorem mem_visibleBelow_iff (s : Search) (hfs : s.fs.WellFormed) (dir : Path)
    (onlyDirectories : Bool) (found : List Path)
    (h : s.visibleBelow dir onlyDirectories = .ok found) (p : Path) :
    p ∈ found ↔ ∃ base names entry, s.fs.directory? s.cwd (Path.orHere dir) = some base ∧
      names ≠ [] ∧ s.fs.at? (base ++ names) = some entry ∧
      FileSystem.isTooLong (Path.directory (Path.join dir (Path.ofSegments names))) = false ∧
      wanted onlyDirectories entry = true ∧ names.any isHidden = false ∧
      p = Path.ofSegments names := by
  unfold Search.visibleBelow at h
  rcases hdir : s.directory? dir with fault | leads
  · rw [hdir] at h
    cases h
  rcases directory?_eq_ok s dir leads hdir with ⟨-, rfl⟩
  rw [hdir] at h
  cases h
  rcases hleads : s.fs.directory? s.cwd (Path.orHere dir) with _ | base
  · simp only [List.not_mem_nil, reduceCtorEq, false_and, exists_false]
  · simp only [FileSystem.reached, List.mem_map, List.mem_filter, Option.some.injEq,
      Bool.and_eq_true, Bool.not_eq_true']
    constructor
    · rintro ⟨⟨names, entry⟩, ⟨⟨hmem, hshort⟩, hwanted, hvisible⟩, rfl⟩
      rcases (hfs.mem_below_iff base _ _).1 hmem with ⟨hne, hentry⟩
      exact ⟨base, names, entry, rfl, hne, hentry, hshort, hwanted, hvisible, rfl⟩
    · rintro ⟨_, names, entry, rfl, hne, hentry, hshort, hwanted, hvisible, rfl⟩
      exact ⟨(names, entry), ⟨⟨(hfs.mem_below_iff base _ _).2 ⟨hne, hentry⟩, hshort⟩, hwanted,
        hvisible⟩, rfl⟩

/-- Without wildcards a part stands for itself or for nothing. -/
theorem finds_iff_of_plain (s : Search) (onlyDirectories : Bool) (dir : Path) (part : Name)
    (h : isPattern part = false) (p : Path) :
    s.Finds onlyDirectories dir part p ↔
      (part = [] ∧ s.fs.isDirectory s.cwd dir = true ∧ p = []) ∨
        (part ≠ [] ∧ s.fs.contains s.cwd (Path.join dir part) = true ∧ p = part) := by
  have hno : ¬isPattern part = true := by
    rw [h]
    exact Bool.false_ne_true
  constructor
  · intro hfinds
    cases hfinds with
    | here _ empty there => exact Or.inl ⟨empty, there, rfl⟩
    | entry _ named there => exact Or.inr ⟨named, there, rfl⟩
    | start pattern _ _ => exact absurd pattern hno
    | below pattern _ _ _ _ _ _ _ => exact absurd pattern hno
    | child pattern _ _ _ _ _ _ => exact absurd pattern hno
  · rintro (⟨hempty, hthere, rfl⟩ | ⟨hnamed, hthere, rfl⟩)
    · exact .here h hempty hthere
    · exact .entry h hnamed hthere

/-- A part for any depth stands for the directory and for what is below it. -/
theorem finds_iff_of_deep (s : Search) (onlyDirectories : Bool) (dir : Path) (part : Name)
    (h : isPattern part = true) (hdeep : s.recursive = true ∧ part = anyDepth) (p : Path) :
    s.Finds onlyDirectories dir part p ↔ (¬(dir = [] ∧ onlyDirectories = false) ∧ p = []) ∨
      ∃ base names entry, s.fs.directory? s.cwd (Path.orHere dir) = some base ∧ names ≠ [] ∧
        s.fs.at? (base ++ names) = some entry ∧
        FileSystem.isTooLong (Path.directory (Path.join dir (Path.ofSegments names))) = false ∧
        wanted onlyDirectories entry = true ∧ names.any isHidden = false ∧
        p = Path.ofSegments names := by
  constructor
  · intro hfinds
    cases hfinds with
    | here plain _ _ => exact absurd (plain.symm.trans h) Bool.false_ne_true
    | entry plain _ _ => exact absurd (plain.symm.trans h) Bool.false_ne_true
    | start _ _ named => exact Or.inl ⟨named, rfl⟩
    | below _ _ leads down there short asked visible =>
        exact Or.inr ⟨_, _, _, leads, down, there, short, asked, visible, rfl⟩
    | child _ shallow _ _ _ _ _ => exact absurd hdeep shallow
  · rintro (⟨hnamed, rfl⟩ |
      ⟨base, names, entry, hleads, hne, hentry, hshort, hwanted, hvisible, rfl⟩)
    · exact .start h hdeep hnamed
    · exact .below h hdeep hleads hne hentry hshort hwanted hvisible

/-- Any other part with wildcards stands for names in the directory. -/
theorem finds_iff_of_shallow (s : Search) (onlyDirectories : Bool) (dir : Path) (part : Name)
    (h : isPattern part = true) (hshallow : ¬(s.recursive = true ∧ part = anyDepth)) (p : Path) :
    s.Finds onlyDirectories dir part p ↔
      (∃ base entry, s.fs.directory? s.cwd (Path.orHere dir) = some base ∧
        s.fs.at? (base ++ [p]) = some entry ∧ wanted onlyDirectories entry = true) ∧
      (isHidden part || !isHidden p) = true ∧ fits part p = true := by
  constructor
  · intro hfinds
    cases hfinds with
    | here plain _ _ => exact absurd (plain.symm.trans h) Bool.false_ne_true
    | entry plain _ _ => exact absurd (plain.symm.trans h) Bool.false_ne_true
    | start _ deep _ => exact absurd deep hshallow
    | below _ deep _ _ _ _ _ _ => exact absurd deep hshallow
    | child _ _ leads there asked visible matched =>
        exact ⟨⟨_, _, leads, there, asked⟩, visible, matched⟩
  · rintro ⟨⟨base, entry, hleads, hentry, hwanted⟩, hvisible, hfits⟩
    exact .child h hshallow hleads hentry hwanted hvisible hfits

/-- The search in one directory finds what the last part stands for. -/
theorem mem_matching_iff (s : Search) (hfs : s.fs.WellFormed) (dir : Path) (part : Name)
    (onlyDirectories : Bool) (found : List Path)
    (h : s.matching dir part onlyDirectories = .ok found) (p : Path) :
    p ∈ found ↔ s.Finds onlyDirectories dir part p := by
  unfold Search.matching at h
  -- As in the search: two stars, other wildcards, nothing, or a plain name.
  by_cases hpattern : isPattern part = true
  · simp only [hpattern, Bool.not_true, Bool.false_eq_true, if_false] at h
    by_cases hdeep : s.recursive = true ∧ part = anyDepth
    · rw [if_pos hdeep] at h
      rcases hbelow : s.visibleBelow dir onlyDirectories with fault | below
      · rw [hbelow] at h
        cases h
      rw [hbelow] at h
      cases h
      rw [finds_iff_of_deep s onlyDirectories dir part hpattern hdeep,
        ← mem_visibleBelow_iff s hfs dir onlyDirectories below hbelow]
      by_cases hunnamed : dir = [] ∧ onlyDirectories = false
      · simp only [hunnamed, and_self, if_true, not_true_eq_false, false_and, false_or]
      · simp only [hunnamed, if_false, not_false_eq_true, true_and, List.mem_cons]
    · rw [if_neg hdeep] at h
      rcases hnames : s.entryNames dir onlyDirectories with fault | names
      · rw [hnames] at h
        cases h
      rw [hnames] at h
      cases h
      rw [List.mem_filter, mem_entryNames_iff s hfs dir onlyDirectories names hnames,
        Bool.and_eq_true, finds_iff_of_shallow s onlyDirectories dir part hpattern hdeep]
  · rw [Bool.not_eq_true] at hpattern
    simp only [hpattern, Bool.not_false, if_true] at h
    rw [finds_iff_of_plain s onlyDirectories dir part hpattern]
    by_cases hempty : part = []
    · simp only [if_pos hempty, Except.ok.injEq] at h
      rw [← h]
      by_cases hthere : s.fs.isDirectory s.cwd dir = true
      · simp only [hthere, if_true, List.mem_singleton, hempty, true_and, ne_eq,
          not_true_eq_false, false_and, or_false]
      · simp only [hthere, if_false, List.not_mem_nil, hempty, ne_eq, not_true_eq_false,
          false_and, and_false, or_self, Bool.false_eq_true]
    · simp only [if_neg hempty, Except.ok.injEq] at h
      rw [← h]
      by_cases hthere : s.fs.contains s.cwd (Path.join dir part) = true
      · simp only [hthere, if_true, List.mem_singleton, hempty, true_and, ne_eq,
          not_false_eq_true, false_and, false_or]
      · simp only [hthere, if_false, List.not_mem_nil, hempty, ne_eq, not_false_eq_true,
          false_and, and_false, or_self, Bool.false_eq_true]

theorem nul_notMem_of_matching (s : Search) (dir : Path) (part : Name) (onlyDirectories : Bool)
    (found : List Path) (hpattern : isPattern part = true)
    (h : s.matching dir part onlyDirectories = .ok found) : '\x00' ∉ dir := by
  intro hnul
  have hdir : s.directory? dir = .error .nulInPath := if_pos hnul
  unfold Search.matching at h
  simp only [hpattern, Bool.not_true, Bool.false_eq_true, if_false] at h
  split at h
  · rw [Search.visibleBelow, hdir] at h
    cases h
  · rw [Search.entryNames, hdir] at h
    cases h

/-- A search in a directory fails only if wildcards are looked for below a path that
    holds a NUL character. -/
theorem exists_matching_ok (s : Search) (dir : Path) (part : Name) (onlyDirectories : Bool)
    (h : isPattern part = true → '\x00' ∉ dir) :
    ∃ found, s.matching dir part onlyDirectories = .ok found := by
  unfold Search.matching
  by_cases hpattern : isPattern part = true
  · have hdir := directory?_of_notMem s dir (h hpattern)
    simp only [hpattern, Bool.not_true, Bool.false_eq_true, if_false]
    split
    · rw [Search.visibleBelow, hdir]
      exact ⟨_, rfl⟩
    · rw [Search.entryNames, hdir]
      exact ⟨_, rfl⟩
  · rw [Bool.not_eq_true] at hpattern
    simp only [hpattern, Bool.not_false, if_true]
    split
    · exact ⟨_, rfl⟩
    · exact ⟨_, rfl⟩

theorem matching_eq_error (s : Search) (dir : Path) (part : Name) (onlyDirectories : Bool)
    (fault : FileSystem.Fault) (h : s.matching dir part onlyDirectories = .error fault) :
    fault = .nulInPath := by
  unfold Search.matching at h
  split at h
  · split at h <;> cases h
  · -- Both ways to look for wildcards ask for the entries of the directory.
    rcases hdir : s.directory? dir with reason | base
    · rw [Search.visibleBelow, Search.entryNames, hdir] at h
      split at h
      · exact (Except.error.inj h).symm.trans (directory?_eq_error s dir reason hdir)
      · exact (Except.error.inj h).symm.trans (directory?_eq_error s dir reason hdir)
    · rw [Search.visibleBelow, Search.entryNames, hdir] at h
      split at h <;> cases h

theorem mem_matchingAll_iff (s : Search) (hfs : s.fs.WellFormed) (part : Name)
    (onlyDirectories : Bool) (dirs found : List Path)
    (h : s.matchingAll part onlyDirectories dirs = .ok found) (p : Path) :
    p ∈ found ↔ ∃ dir ∈ dirs, ∃ q, s.Finds onlyDirectories dir part q ∧ p = Path.join dir q := by
  -- By induction on the directories that are searched.
  induction dirs generalizing found with
  | nil =>
      cases h
      simp only [List.not_mem_nil, false_and, exists_false]
  | cons dir dirs ih =>
      rw [Search.matchingAll] at h
      rcases hfirst : s.matching dir part onlyDirectories with fault | first
      · simp only [hfirst, reduceCtorEq] at h
      rcases hrest : s.matchingAll part onlyDirectories dirs with fault | rest
      · simp only [hfirst, hrest, reduceCtorEq] at h
      simp only [hfirst, hrest, Except.ok.injEq] at h
      rw [← h, List.mem_append, List.mem_map, ih rest hrest]
      simp only [mem_matching_iff s hfs dir part onlyDirectories first hfirst]
      constructor
      · rintro (⟨q, hfinds, hp⟩ | ⟨d, hd, q, hfinds, hp⟩)
        · exact ⟨dir, List.mem_cons_self, q, hfinds, hp.symm⟩
        · exact ⟨d, List.mem_cons_of_mem dir hd, q, hfinds, hp⟩
      · rintro ⟨d, hd, q, hfinds, hp⟩
        rcases List.mem_cons.1 hd with rfl | hd
        · exact Or.inl ⟨q, hfinds, hp.symm⟩
        · exact Or.inr ⟨d, hd, q, hfinds, hp⟩

theorem exists_matchingAll_ok (s : Search) (part : Name) (onlyDirectories : Bool)
    (dirs : List Path) (h : isPattern part = true → ∀ dir ∈ dirs, '\x00' ∉ dir) :
    ∃ found, s.matchingAll part onlyDirectories dirs = .ok found := by
  induction dirs with
  | nil => exact ⟨[], rfl⟩
  | cons dir dirs ih =>
      rcases exists_matching_ok s dir part onlyDirectories
        (fun hpattern => h hpattern dir List.mem_cons_self) with ⟨first, hfirst⟩
      rcases ih fun hpattern d hd => h hpattern d (List.mem_cons_of_mem dir hd) with
        ⟨rest, hrest⟩
      exact ⟨first.map (Path.join dir) ++ rest, by simp only [Search.matchingAll, hfirst, hrest]⟩

theorem matchingAll_eq_error (s : Search) (part : Name) (onlyDirectories : Bool)
    (dirs : List Path) (fault : FileSystem.Fault)
    (h : s.matchingAll part onlyDirectories dirs = .error fault) : fault = .nulInPath := by
  induction dirs with
  | nil => cases h
  | cons dir dirs ih =>
      rw [Search.matchingAll] at h
      rcases hfirst : s.matching dir part onlyDirectories with reason | first
      · simp only [hfirst, Except.error.injEq] at h
        exact h ▸ matching_eq_error s dir part onlyDirectories reason hfirst
      rcases hrest : s.matchingAll part onlyDirectories dirs with reason | rest
      · simp only [hfirst, hrest, Except.error.injEq] at h
        exact ih (h ▸ hrest)
      · simp only [hfirst, hrest, reduceCtorEq] at h

/-- The wildcards of a pattern are in front of its last slash or behind it. -/
theorem isPattern_lastName (pattern : Path) (h : isPattern pattern = true)
    (hdir : isPattern (Path.directory pattern) = false) :
    isPattern (Path.lastName pattern) = true := by
  have hsplit := Path.beginning_append_lastName pattern
  rcases Path.directory_append_slashes pattern with ⟨slashes, hbeginning, hslashes, -⟩
  -- Slashes are no wildcards, and neither is anything in the directory.
  have hplain : isPattern slashes = false := by
    rw [isPattern, List.any_eq_false]
    intro c hc
    rw [hslashes c hc]
    decide
  unfold isPattern at h hdir hplain ⊢
  rw [← hsplit, hbeginning, List.any_append, List.any_append, hdir, hplain] at h
  exact h

/-- A directory that is a pattern ends in a name. -/
theorem lastName_directory_ne_nil (pattern : Path) (h : isPattern (Path.directory pattern) = true) :
    Path.lastName (Path.directory pattern) ≠ [] := by
  intro hnil
  have hall := Path.directory_of_lastName_nil pattern hnil
  rw [isPattern, List.any_eq_true] at h
  rcases h with ⟨c, hc, hwild⟩
  rw [hall c hc] at hwild
  exact absurd hwild (by decide)

/-- A directory that is a pattern has a name, so it is shorter than what is in it. -/
theorem length_directory_lt_of_isPattern (pattern : Path)
    (h : isPattern (Path.directory pattern) = true) :
    (Path.directory pattern).length < pattern.length := by
  by_cases hlast : Path.lastName pattern = []
  · rcases Path.directory_append_slashes pattern with ⟨slashes, hbeginning, -, -⟩
    have hsplit := Path.beginning_append_lastName pattern
    rw [hlast, List.append_nil] at hsplit
    have hslashes : slashes ≠ [] := by
      rintro rfl
      -- The directory would end in a slash.
      rw [List.append_nil] at hbeginning
      exact lastName_directory_ne_nil pattern h (by rw [← hbeginning, hsplit, hlast])
    have hlength := congrArg List.length hsplit
    rw [hbeginning, List.length_append] at hlength
    have hpositive := List.length_pos_iff.2 hslashes
    omega
  · exact Path.length_directory_lt pattern hlast

/-- An expansion of a pattern, in terms of the directories before its last part. -/
theorem expand_of_isPattern (s : Search) (onlyDirectories : Bool) (pattern : Path)
    (h : isPattern pattern = true) (hdir : isPattern (Path.directory pattern) = true) :
    s.expand onlyDirectories pattern =
      match s.expand true (Path.directory pattern) with
      | .error fault => .error fault
      | .ok dirs => s.matchingAll (Path.lastName pattern) onlyDirectories dirs.eraseDups := by
  have hlength := length_directory_lt_of_isPattern pattern hdir
  rw [Search.expand]
  simp only [h, Bool.not_true, Bool.false_eq_true, if_false]
  refine (dif_pos ⟨hdir, hlength⟩).trans ?_
  rcases s.expand true (Path.directory pattern) with fault | dirs
  · rfl
  · rfl

theorem expand_of_plain_directory (s : Search) (onlyDirectories : Bool) (pattern : Path)
    (h : isPattern pattern = true) (hdir : isPattern (Path.directory pattern) = false) :
    s.expand onlyDirectories pattern =
      s.matchingAll (Path.lastName pattern) onlyDirectories [Path.directory pattern] := by
  rw [Search.expand]
  simp only [h, hdir, Bool.not_true, Bool.false_eq_true, if_false, false_and, dite_false]

/-- A pattern without wildcards is found if it leads somewhere. -/
theorem mem_expand_of_plain_iff (s : Search) (onlyDirectories : Bool) (pattern : Path)
    (hpattern : isPattern pattern = false) (found : List Path)
    (h : s.expand onlyDirectories pattern = .ok found) (p : Path) :
    p ∈ found ↔ s.Stands onlyDirectories pattern p := by
  have hstands : s.Stands onlyDirectories pattern p ↔
      ((if Path.lastName pattern = [] then s.fs.isDirectory s.cwd (Path.directory pattern)
        else s.fs.contains s.cwd pattern) = true ∧ p = pattern) := by
    constructor
    · intro hp
      cases hp with
      | itself _ there => exact ⟨there, rfl⟩
      | beneath wild _ _ _ => exact absurd (hpattern.symm.trans wild) Bool.false_ne_true
      | within wild _ _ _ => exact absurd (hpattern.symm.trans wild) Bool.false_ne_true
    · rintro ⟨hthere, rfl⟩
      exact .itself hpattern hthere
  -- There is at most one path to be found.
  have hone : ∀ there : Bool, p ∈ (if there then [pattern] else []) ↔
      there = true ∧ p = pattern := by
    intro there
    cases there with
    | false => simp only [Bool.false_eq_true, if_false, List.not_mem_nil, false_and]
    | true => simp only [if_true, List.mem_singleton, true_and]
  rw [hstands]
  rw [Search.expand] at h
  simp only [hpattern, Bool.not_false, if_true] at h
  by_cases hlast : Path.lastName pattern = []
  · rw [if_pos hlast] at h ⊢
    cases h
    exact hone _
  · rw [if_neg hlast] at h ⊢
    cases h
    exact hone _

/-- An expansion that fails has met a NUL character. -/
theorem expand_eq_error (s : Search) (onlyDirectories : Bool) (pattern : Path)
    (fault : FileSystem.Fault) (h : s.expand onlyDirectories pattern = .error fault) :
    fault = .nulInPath := by
  -- By induction on the length: the directory of a pattern with wildcards is shorter.
  induction pattern using (measure List.length).wf.induction generalizing onlyDirectories with
  | _ pattern ih =>
      rcases hpattern : isPattern pattern with _ | _
      · rw [Search.expand] at h
        simp only [hpattern, Bool.not_false, if_true] at h
        split at h <;> cases h
      rcases hdir : isPattern (Path.directory pattern) with _ | _
      · rw [expand_of_plain_directory s onlyDirectories pattern hpattern hdir] at h
        exact matchingAll_eq_error s _ onlyDirectories _ fault h
      · rw [expand_of_isPattern s onlyDirectories pattern hpattern hdir] at h
        rcases hdirs : s.expand true (Path.directory pattern) with reason | dirs
        · rw [hdirs, Except.error.injEq] at h
          exact ih _ (length_directory_lt_of_isPattern pattern hdir) true (h ▸ hdirs)
        · rw [hdirs] at h
          exact matchingAll_eq_error s _ onlyDirectories _ fault h

/-- A directory in which a search for wildcards has not failed holds no NUL. -/
theorem nul_notMem_of_matchingAll (s : Search) (part : Name) (onlyDirectories : Bool)
    (dir : Path) (found : List Path) (hpart : isPattern part = true)
    (h : s.matchingAll part onlyDirectories [dir] = .ok found) : '\x00' ∉ dir := by
  rw [Search.matchingAll] at h
  rcases hmatching : s.matching dir part onlyDirectories with fault | names
  · rw [hmatching] at h
    cases h
  · exact nul_notMem_of_matching s _ _ onlyDirectories names hpart hmatching

/-- The search finds what the pattern stands for. -/
theorem mem_expand_iff (s : Search) (hfs : s.fs.WellFormed) (onlyDirectories : Bool)
    (pattern : Path) (found : List Path) (h : s.expand onlyDirectories pattern = .ok found)
    (p : Path) : p ∈ found ↔ s.Stands onlyDirectories pattern p := by
  -- By induction on the length, along the two cases of the search.
  induction pattern using (measure List.length).wf.induction generalizing onlyDirectories found p
    with
  | _ pattern ih =>
      rcases hpattern : isPattern pattern with _ | _
      · exact mem_expand_of_plain_iff s onlyDirectories pattern hpattern found h p
      rcases hdir : isPattern (Path.directory pattern) with _ | _
      · rw [expand_of_plain_directory s onlyDirectories pattern hpattern hdir] at h
        rw [mem_matchingAll_iff s hfs _ onlyDirectories _ found h]
        simp only [List.mem_singleton, exists_eq_left]
        -- Only one directory is searched, and it has no wildcards.
        constructor
        · rintro ⟨q, hfinds, rfl⟩
          have hnul := nul_notMem_of_matchingAll s _ onlyDirectories _ found
            (isPattern_lastName pattern hpattern hdir) h
          exact .within hpattern hdir hnul hfinds
        · intro hp
          cases hp with
          | itself plain _ => exact absurd (plain.symm.trans hpattern) Bool.false_ne_true
          | beneath _ before _ _ => exact absurd (hdir.symm.trans before) Bool.false_ne_true
          | within _ _ _ found => exact ⟨_, found, rfl⟩
      · rw [expand_of_isPattern s onlyDirectories pattern hpattern hdir] at h
        rcases hdirs : s.expand true (Path.directory pattern) with fault | dirs
        · rw [hdirs] at h
          cases h
        rw [hdirs] at h
        have hstands := ih _ (length_directory_lt_of_isPattern pattern hdir) true dirs hdirs
        rw [mem_matchingAll_iff s hfs _ onlyDirectories _ found h]
        simp only [List.mem_eraseDups, hstands]
        -- The directories are what the pattern's directory stands for, by induction.
        constructor
        · rintro ⟨dir, hdirStands, q, hfinds, rfl⟩
          exact .beneath hpattern hdir hdirStands hfinds
        · intro hp
          cases hp with
          | itself plain _ => exact absurd (plain.symm.trans hpattern) Bool.false_ne_true
          | beneath _ _ stands found => exact ⟨_, stands, _, found, rfl⟩
          | within _ before _ _ => exact absurd (before.symm.trans hdir) Bool.false_ne_true

/-- What a last part with a plain ending stands for ends in it. -/
theorem Search.Finds.suffix_lastName {s : Search} (hfs : s.fs.WellFormed)
    {onlyDirectories : Bool} {dir p : Path} {part : Name} (ending : Name) (hne : ending ≠ [])
    (hplain : ∀ c ∈ ending, IsPlain c) (hpart : '/' ∉ part) (hending : ending <:+ part)
    (h : s.Finds onlyDirectories dir part p) : ending <:+ Path.lastName p := by
  have hnamed : part ≠ [] := fun hnil => hne (List.suffix_nil.1 (hnil ▸ hending))
  -- No wildcard is plain, so the part does not stand for any depth.
  have hshallow : part ≠ anyDepth := by
    rintro rfl
    rcases List.exists_mem_of_ne_nil ending hne with ⟨c, hc⟩
    have hstar : c = '*' := by
      have hmem := hending.subset hc
      simpa only [anyDepth, List.mem_cons, List.not_mem_nil, or_false, or_self] using hmem
    exact (hplain c hc).1 hstar
  cases h with
  | here _ empty _ => exact absurd empty hnamed
  | entry _ _ _ => rwa [Path.lastName_of_no_slash _ hpart]
  | start _ deep _ => exact absurd deep.2 hshallow
  | below _ deep _ _ _ _ _ _ => exact absurd deep.2 hshallow
  | child _ _ _ there _ _ matched =>
      have hname := hfs.isName _ (by rw [there, Option.isSome_some]) _
        (List.mem_append_right _ (List.mem_singleton.2 rfl))
      rcases hending with ⟨front, rfl⟩
      rw [Path.lastName_of_no_slash _ hname.2.2.2.1]
      exact suffix_of_fits front ending _ hplain matched

/-- What a pattern with a plain ending stands for ends in it. -/
theorem Search.Stands.suffix_lastName {s : Search} (hfs : s.fs.WellFormed)
    {onlyDirectories : Bool} {pattern p : Path} (ending : Name) (hne : ending ≠ [])
    (hplain : ∀ c ∈ ending, IsPlain c) (hending : ending <:+ Path.lastName pattern)
    (h : s.Stands onlyDirectories pattern p) : ending <:+ Path.lastName p := by
  have hpart := Path.slash_notMem_lastName pattern
  cases h with
  | itself _ _ => exact hending
  | beneath _ _ _ found =>
      rw [Path.lastName_join]
      exact found.suffix_lastName hfs ending hne hplain hpart hending
  | within _ _ _ found =>
      rw [Path.lastName_join]
      exact found.suffix_lastName hfs ending hne hplain hpart hending

end Glob

end ClientPlan
