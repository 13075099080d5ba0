import ClientPlan.Proofs.FileSystem.Walks
import ClientPlan.Proofs.Path.Clean

/-!
# What Stands in a File System

The entries of a well-formed file system, and the paths that lead to them.

A file system is well formed if no address has two entries, each name is one, and each
entry stands in a directory. Then what a search finds in and below a directory is what
stands at the addresses there (`WellFormed.mem_children_iff`,
`WellFormed.mem_below_iff`), everything above an entry is a directory, and a path
leads to every entry. A path that leads anywhere is looked up name by name, so it holds
no character that no name has.

## Main definitions

* `Leads`: A path that leads to an entry, however long it is.

## Theorems

* `WellFormed.mem_below_iff`, `WellFormed.mem_children_iff`: What a directory holds.
* `WellFormed.above`: What is above an entry.
* `walk_down`: A walk along names.
* `contains_iff`, `isFile_iff`, `isDirectory_iff`, `tests_cases`: The tests of a path.
* `leads_join_iff`: A path below a directory.
* `walk_directory`: The way to a path leads through its directory.
* `nul_notMem_of_leads`: A path that leads anywhere holds no NUL character.
-/

namespace ClientPlan

namespace FileSystem

theorem suffix?_eq_some_iff (base a rest : Address) :
    suffix? base a = some rest ↔ a = base ++ rest := by
  -- By induction on the base, name by name.
  induction base generalizing a with
  | nil => rw [suffix?, Option.some.injEq, List.nil_append]
  | cons first base ih =>
      cases a with
      | nil => simp only [suffix?, reduceCtorEq, List.cons_append]
      | cons second a =>
          rw [suffix?, List.cons_append, List.cons.injEq]
          by_cases hfirst : first = second
          · rw [if_pos hfirst, ih]
            exact ⟨fun h => ⟨hfirst.symm, h⟩, fun h => h.2⟩
          · rw [if_neg hfirst]
            exact ⟨fun h => absurd h.symm (Option.some_ne_none rest),
              fun h => absurd h.1.symm hfirst⟩

theorem mem_of_find (a : Address) (entry : Entry) (entries : List (Address × Entry))
    (h : find a entries = some entry) : (a, entry) ∈ entries := by
  induction entries with
  | nil => cases h
  | cons e entries ih =>
      rcases e with ⟨b, other⟩
      rw [find] at h
      split at h
      · rename_i hb
        cases h
        rw [hb]
        exact List.mem_cons_self
      · exact List.mem_cons_of_mem _ (ih h)

theorem find_of_mem (a : Address) (entry : Entry) (entries : List (Address × Entry))
    (hnodup : (entries.map (·.1)).Nodup) (h : (a, entry) ∈ entries) :
    find a entries = some entry := by
  induction entries with
  | nil => cases h
  | cons e entries ih =>
      rcases e with ⟨b, other⟩
      rw [List.map_cons, List.nodup_cons] at hnodup
      rw [find]
      rcases List.mem_cons.1 h with heq | hmem
      · cases heq
        rw [if_pos rfl]
      · -- The address is not that of the first entry too.
        have hne : b ≠ a := by
          rintro rfl
          exact hnodup.1 (List.mem_map.2 ⟨_, hmem, rfl⟩)
        rw [if_neg hne]
        exact ih hnodup.2 hmem

section WellFormed

variable {fs : FileSystem}

theorem WellFormed.at?_eq_some_iff (h : fs.WellFormed) (a : Address) (entry : Entry)
    (ha : a ≠ []) : fs.at? a = some entry ↔ (a, entry) ∈ fs.entries := by
  rw [at?, if_neg ha]
  exact ⟨mem_of_find a entry fs.entries, find_of_mem a entry fs.entries h.nodup⟩

/-- What is below a directory stands at the addresses that go on from it. -/
theorem WellFormed.mem_below_iff (h : fs.WellFormed) (base names : Address) (entry : Entry) :
    (names, entry) ∈ fs.below base ↔ names ≠ [] ∧ fs.at? (base ++ names) = some entry := by
  rw [below, List.mem_filterMap]
  constructor
  · -- The directory itself is not below itself, so a name is left.
    rintro ⟨⟨a, e⟩, hmem, hsome⟩
    simp only at hsome
    split at hsome
    · rename_i name rest hsuffix
      cases hsome
      rw [suffix?_eq_some_iff] at hsuffix
      rw [hsuffix] at hmem
      exact ⟨List.cons_ne_nil name rest,
        (h.at?_eq_some_iff _ _ (List.append_ne_nil_of_right_ne_nil _
          (List.cons_ne_nil name rest))).2 hmem⟩
    · cases hsome
  · rintro ⟨hne, hat⟩
    refine ⟨(base ++ names, entry), (h.at?_eq_some_iff _ _
      (List.append_ne_nil_of_right_ne_nil _ hne)).1 hat, ?_⟩
    rcases List.exists_cons_of_ne_nil hne with ⟨name, rest, rfl⟩
    simp only [(suffix?_eq_some_iff base _ (name :: rest)).2 rfl]

/-- What is in a directory stands one name further on. -/
theorem WellFormed.mem_children_iff (h : fs.WellFormed) (base : Address) (name : Name)
    (entry : Entry) :
    (name, entry) ∈ fs.children base ↔ fs.at? (base ++ [name]) = some entry := by
  rw [children, List.mem_filterMap]
  constructor
  · rintro ⟨⟨names, e⟩, hmem, hsome⟩
    simp only at hsome
    split at hsome
    · cases hsome
      exact ((h.mem_below_iff base _ _).1 hmem).2
    · cases hsome
  · intro hat
    exact ⟨([name], entry), (h.mem_below_iff base _ _).2 ⟨List.cons_ne_nil name [], hat⟩, rfl⟩

theorem WellFormed.isName (h : fs.WellFormed) (a : Address) (ha : (fs.at? a).isSome = true)
    (name : Name) (hname : name ∈ a) : IsName name := by
  rcases Option.isSome_iff_exists.1 ha with ⟨entry, hentry⟩
  rw [h.at?_eq_some_iff a entry (List.ne_nil_of_mem hname)] at hentry
  exact (h.names _ hentry).2 name hname

/-- What is above an entry is a directory. -/
theorem WellFormed.above (h : fs.WellFormed) (a rest : Address) (hrest : rest ≠ [])
    (ha : (fs.at? (a ++ rest)).isSome = true) : fs.at? a = some .directory := by
  induction rest using List.reverseRecOn with
  | nil => exact absurd rfl hrest
  | append_singleton rest name ih =>
      rcases Option.isSome_iff_exists.1 ha with ⟨entry, hentry⟩
      rw [h.at?_eq_some_iff _ entry (List.append_ne_nil_of_right_ne_nil a
        (List.append_ne_nil_of_right_ne_nil rest (List.cons_ne_nil name [])))] at hentry
      have hparent := h.parents _ hentry
      rw [← List.append_assoc, List.dropLast_concat] at hparent
      by_cases hnil : rest = []
      · rwa [hnil, List.append_nil] at hparent
      · exact ih hnil (by rw [hparent, Option.isSome_some])

/-- Names lead from a directory to what is below it. -/
theorem WellFormed.walk_down (h : fs.WellFormed) (a names : Address)
    (hend : (fs.at? (a ++ names)).isSome = true) : fs.walk a names = .ok (a ++ names) := by
  induction names generalizing a with
  | nil => rw [walk, List.append_nil]
  | cons name names ih =>
      rcases h.isName _ hend name (List.mem_append_right a List.mem_cons_self) with
        ⟨hne, hhere, hup, -, -, hfits⟩
      have ha := h.above a (name :: names) (List.cons_ne_nil name names) hend
      rw [List.append_cons] at hend ⊢
      -- Something stands at every address on the way to the last one.
      have hnext : (fs.at? (a ++ [name])).isSome = true := by
        by_cases hnil : names = []
        · rwa [hnil, List.append_nil] at hend
        · rw [h.above (a ++ [name]) names hnil hend, Option.isSome_some]
      rcases Option.isSome_iff_exists.1 hnext with ⟨entry, hentry⟩
      have hstay : ¬(name = [] ∨ name = Path.here) := not_or.2 ⟨hne, hhere⟩
      rw [walk, ha]
      simp only [if_neg hstay, if_neg hup, hfits, hentry, Bool.not_true, Bool.false_eq_true,
        if_false]
      exact ih (a ++ [name]) hend

end WellFormed

/-- Whether a path leads to an entry, however long the path is. -/
def Leads (fs : FileSystem) (cwd p : Path) : Prop :=
  ∃ a, fs.walk [] (Path.segments (Path.join cwd p)) = .ok a

theorem resolve_eq_ok_iff (fs : FileSystem) (cwd p : Path) (a : Address) :
    fs.resolve cwd p = .ok a ↔ p ≠ [] ∧ isTooLong p = false ∧
      fs.walk [] (Path.segments (Path.join cwd p)) = .ok a := by
  unfold resolve
  by_cases hnil : p = []
  · simp only [hnil, if_true, reduceCtorEq, ne_eq, not_true_eq_false, false_and]
  by_cases hlong : isTooLong p = true
  · simp only [if_neg hnil, hlong, if_true, reduceCtorEq, Bool.true_eq_false, false_and, and_false]
  · rw [Bool.not_eq_true] at hlong
    simp only [hlong, Bool.false_eq_true, if_false, ne_eq, hnil, not_false_eq_true, true_and]

theorem isFile_iff (fs : FileSystem) (cwd p : Path) :
    fs.isFile cwd p = true ↔
      ∃ a content, fs.resolve cwd p = .ok a ∧ fs.at? a = some (.file content) := by
  unfold isFile entry?
  rcases hresolve : fs.resolve cwd p with reason | a
  · simp only [Bool.false_eq_true, reduceCtorEq, false_and, exists_false]
  · simp only [Except.ok.injEq, exists_and_left, exists_eq_left']
    rcases hentry : fs.at? a with _ | _ | content
    · simp only [Bool.false_eq_true, reduceCtorEq, exists_false]
    · simp only [Bool.false_eq_true, Option.some.injEq, reduceCtorEq, exists_false]
    · simp only [Option.some.injEq, Entry.file.injEq, exists_eq']

theorem directory?_eq_some_iff (fs : FileSystem) (cwd p : Path) (a : Address) :
    fs.directory? cwd p = some a ↔ fs.resolve cwd p = .ok a ∧ fs.at? a = some .directory := by
  unfold directory?
  rcases hresolve : fs.resolve cwd p with reason | b
  · simp only [reduceCtorEq, false_and]
  · simp only [Except.ok.injEq]
    constructor
    · intro h
      split at h
      · cases h
        exact ⟨rfl, by assumption⟩
      · cases h
    · rintro ⟨rfl, hdirectory⟩
      rw [if_pos hdirectory]

theorem isDirectory_iff (fs : FileSystem) (cwd p : Path) :
    fs.isDirectory cwd p = true ↔ ∃ a, fs.directory? cwd p = some a := by
  simp only [directory?_eq_some_iff]
  unfold isDirectory entry?
  rcases hresolve : fs.resolve cwd p with reason | a
  · simp only [Bool.false_eq_true, reduceCtorEq, false_and, exists_false]
  · simp only [Except.ok.injEq, exists_eq_left']
    rcases hentry : fs.at? a with _ | _ | content
    · simp only [Bool.false_eq_true, reduceCtorEq]
    · simp only
    · simp only [Bool.false_eq_true, Option.some.injEq, reduceCtorEq]

/-- A directory that a path leads to stands at the address of the path. -/
theorem directory?_of_isDirectory (fs : FileSystem) (cwd p : Path)
    (h : fs.isDirectory cwd p = true) : fs.directory? cwd p = some (Path.address cwd p) := by
  rcases (isDirectory_iff fs cwd p).1 h with ⟨base, hdir⟩
  rw [← resolve_eq_ok fs cwd p base ((directory?_eq_some_iff fs cwd p base).1 hdir).1]
  exact hdir

/-- A path leads to an entry unless it is empty, too long, or leads nowhere. -/
theorem contains_iff (fs : FileSystem) (cwd p : Path) :
    fs.contains cwd p = true ↔ p ≠ [] ∧ isTooLong p = false ∧ fs.Leads cwd p := by
  unfold contains entry?
  constructor
  · intro h
    rcases hresolve : fs.resolve cwd p with reason | a
    · rw [hresolve] at h
      cases h
    · rcases (resolve_eq_ok_iff fs cwd p a).1 hresolve with ⟨hne, hlong, hwalk⟩
      exact ⟨hne, hlong, a, hwalk⟩
  · rintro ⟨hne, hlong, a, hwalk⟩
    rw [(resolve_eq_ok_iff fs cwd p a).2 ⟨hne, hlong, hwalk⟩]
    exact isSome_of_walk fs _ a hwalk

/-- A path leads to a file, to a directory, or nowhere. -/
theorem tests_cases (fs : FileSystem) (cwd p : Path) :
    (fs.isFile cwd p = true ∧ fs.isDirectory cwd p = false ∧ fs.contains cwd p = true) ∨
      (fs.isFile cwd p = false ∧ fs.isDirectory cwd p = true ∧ fs.contains cwd p = true) ∨
      (fs.isFile cwd p = false ∧ fs.isDirectory cwd p = false ∧ fs.contains cwd p = false) := by
  unfold isFile isDirectory contains
  rcases fs.entry? cwd p with _ | _ | content
  · exact Or.inr (Or.inr ⟨rfl, rfl, rfl⟩)
  · exact Or.inr (Or.inl ⟨rfl, rfl, rfl⟩)
  · exact Or.inl ⟨rfl, rfl, rfl⟩

theorem Leads.of_isFile {fs : FileSystem} {cwd p : Path} (h : fs.isFile cwd p = true) :
    fs.Leads cwd p := by
  rcases (isFile_iff fs cwd p).1 h with ⟨a, -, hresolve, -⟩
  exact ⟨a, ((resolve_eq_ok_iff fs cwd p a).1 hresolve).2.2⟩

/-- A path that leads to a file ends in the name of the file. -/
theorem WellFormed.lastName_of_walk {fs : FileSystem} (h : fs.WellFormed) (cwd p : Path)
    (a : Address) (content : List UInt8)
    (hwalk : fs.walk [] (Path.segments (Path.join cwd p)) = .ok a)
    (ha : fs.at? a = some (.file content)) : ∃ front, a = front ++ [Path.lastName p] := by
  have hlast := Path.getLast?_segments_join cwd p
  rcases List.eq_nil_or_concat' (Path.segments (Path.join cwd p)) with hnil | ⟨start, name, hsplit⟩
  · exact absurd hnil (Path.segments_ne_nil _)
  rw [hsplit, List.getLast?_concat, Option.some.injEq] at hlast
  rw [hsplit, walk_append] at hwalk
  rcases hstart : fs.walk [] start with reason | b
  · rw [hstart] at hwalk
    cases hwalk
  rw [hstart] at hwalk
  rcases walk_cons_eq_ok fs name [] b a hwalk with ⟨hdirectory, hend⟩
  rw [walk, Except.ok.injEq] at hend
  rw [← hend] at ha ⊢
  unfold Path.further at ha ⊢
  -- A name that leads nowhere or up leads to a directory.
  by_cases hstay : name = [] ∨ name = Path.here
  · rw [if_pos hstay, hdirectory] at ha
    cases ha
  by_cases hup : name = Path.up
  · rw [if_neg hstay, if_pos hup] at ha
    rcases List.eq_nil_or_concat' b with rfl | ⟨above, last, rfl⟩
    · rw [List.dropLast_nil, at?_root] at ha
      cases ha
    · rw [List.dropLast_concat, h.above above [last] (List.cons_ne_nil last [])
        (by rw [hdirectory, Option.isSome_some])] at ha
      cases ha
  · rw [if_neg hstay, if_neg hup, hlast]
    exact ⟨b, rfl⟩

/-- What is below a directory is reached through it. -/
theorem walk_join_iff (fs : FileSystem) (cwd dir p : Path) (a : Address)
    (h : Path.isAbsolute p = false) :
    fs.walk [] (Path.segments (Path.join cwd (Path.join dir p))) = .ok a ↔
      ∃ base, fs.walk [] (Path.segments (Path.join cwd dir)) = .ok base ∧
        fs.at? base = some .directory ∧ fs.walk base (Path.segments p) = .ok a := by
  rcases Path.exists_segments_join_join cwd dir p h with ⟨start, slash, hdir, hslash, hjoin⟩
  -- A slash at the end of the directory asks for no more than what follows.
  have hend : ∀ base, fs.at? base = some .directory →
      (fs.walk [] (start ++ slash) = .ok base ↔ fs.walk [] start = .ok base) := by
    intro base hbase
    rcases hslash with rfl | rfl
    · rw [List.append_nil]
    · rw [walk_append]
      rcases fs.walk [] start with reason | reached
      · simp only
      · simp only [Except.ok.injEq]
        constructor
        · intro hstay
          exact (Except.ok.inj (walk_cons_eq_ok fs [] [] reached base hstay).2 :
            Path.further reached [] = base)
        · rintro rfl
          rw [walk, hbase]
          rfl
  rw [hjoin, hdir, walk_append]
  rcases hstart : fs.walk [] start with reason | base
  · simp only [reduceCtorEq, false_iff, not_exists, not_and]
    rintro base hwalk hbase
    rw [hend base hbase, hstart] at hwalk
    cases hwalk
  · simp only
    constructor
    · intro hwalk
      rcases List.exists_cons_of_ne_nil (Path.segments_ne_nil p) with ⟨name, names, hnames⟩
      rw [hnames] at hwalk
      have hbase := (walk_cons_eq_ok fs name names base a hwalk).1
      rw [hnames]
      exact ⟨base, (hend base hbase).2 hstart, hbase, hwalk⟩
    · rintro ⟨other, hother, hdirectory, hwalk⟩
      rw [hend other hdirectory, hstart, Except.ok.injEq] at hother
      rwa [hother]

/-- Empty segments are passed without moving. -/
theorem walk_of_slashes (fs : FileSystem) (start rest : List Name) (a b : Address)
    (hstart : ∀ name ∈ start, name = []) (h : fs.walk a (start ++ rest) = .ok b) :
    fs.walk a rest = .ok b := by
  induction start with
  | nil => exact h
  | cons name start ih =>
      rw [List.forall_mem_cons] at hstart
      have hnext := (walk_cons_eq_ok fs name _ a b h).2
      rw [Path.further, if_pos (Or.inl hstart.1)] at hnext
      exact ih hstart.2 hnext

/-- The way to a path leads through its directory. -/
theorem walk_directory (fs : FileSystem) (cwd p : Path) (a : Address)
    (h : fs.walk [] (Path.segments (Path.join cwd p)) = .ok a) :
    ∃ base, fs.walk [] (Path.segments (Path.join cwd (Path.directory p))) = .ok base ∧
      fs.at? base = some .directory ∧ fs.walk base [Path.lastName p] = .ok a := by
  have hname := Path.slash_notMem_lastName p
  have hrelative := Path.isAbsolute_of_no_slash _ hname
  have hlast := Path.segments_of_no_slash _ hname
  -- The directory ends before the last slashes, if there is anything in front of them.
  rcases Path.directory_cases p with ⟨hne, slashes, hslashes, hp⟩ | ⟨hp, hall⟩
  · rcases Path.exists_join_eq cwd (Path.directory p) with ⟨front, hjoin, hrest⟩
    rcases Path.exists_segments_slashes slashes (Path.lastName p) hslashes with
      ⟨start, hstart, hempty⟩
    rw [hp, hrest hne, Path.segments_append_slash, walk_append, ← hjoin, hstart, hlast] at h
    rcases hwalk : fs.walk [] (Path.segments (Path.join cwd (Path.directory p))) with
      reason | base
    · rw [hwalk] at h
      cases h
    · rw [hwalk] at h
      have hstep := walk_of_slashes fs start [Path.lastName p] base a hempty h
      exact ⟨base, rfl, (walk_cons_eq_ok fs _ [] base a hstep).1, hstep⟩
  · -- Nothing has been cut off, so the name is joined to the directory as it is.
    have hjoin : Path.join (Path.directory p) (Path.lastName p) = p := by
      rw [Path.join, hrelative, if_neg Bool.false_ne_true, if_pos, ← hp]
      rcases List.eq_nil_or_concat (Path.directory p) with hnil | ⟨front, c, hlast⟩
      · exact Or.inl hnil
      · refine Or.inr ?_
        rw [hlast, List.concat_eq_append] at hall ⊢
        rw [List.getLast?_concat, hall c List.mem_concat_self]
    rw [← hjoin, walk_join_iff fs cwd _ _ a hrelative, hlast] at h
    exact h

/-- A path below a directory leads somewhere only if the directory is there. -/
theorem leads_join_iff (fs : FileSystem) (cwd dir p : Path) (h : Path.isAbsolute p = false) :
    fs.Leads cwd (Path.join dir p) ↔
      ∃ base, fs.walk [] (Path.segments (Path.join cwd dir)) = .ok base ∧
        fs.at? base = some .directory ∧ ∃ a, fs.walk base (Path.segments p) = .ok a := by
  unfold Leads
  simp only [walk_join_iff fs cwd dir p _ h]
  constructor
  · rintro ⟨a, base, hdir, hbase, hwalk⟩
    exact ⟨base, hdir, hbase, a, hwalk⟩
  · rintro ⟨base, hdir, hbase, a, hwalk⟩
    exact ⟨a, base, hdir, hbase, hwalk⟩

/-- Every name that a walk looks up is that of an entry. -/
theorem nul_notMem_of_walk (fs : FileSystem) (h : fs.WellFormed) (names : List Name)
    (a b : Address) (hwalk : fs.walk a names = .ok b) : ∀ name ∈ names, '\x00' ∉ name := by
  induction names generalizing a with
  | nil => exact List.forall_mem_nil _
  | cons first names ih =>
      refine List.forall_mem_cons.2 ⟨?_, ih _ (walk_cons_eq_ok fs first names a b hwalk).2⟩
      rw [walk, (walk_cons_eq_ok fs first names a b hwalk).1] at hwalk
      simp only at hwalk
      -- The names that are not looked up are spelled out.
      split at hwalk
      · rename_i hstay
        rcases hstay with rfl | rfl
        · decide
        · decide
      split at hwalk
      · rename_i hup
        rw [hup]
        decide
      split at hwalk
      · cases hwalk
      rcases hentry : fs.at? (a ++ [first]) with _ | entry
      · rw [hentry] at hwalk
        cases hwalk
      · exact (h.isName _ (by rw [hentry, Option.isSome_some]) first
          (List.mem_append_right a List.mem_cons_self)).2.2.2.2.1

theorem nul_notMem_of_leads (fs : FileSystem) (h : fs.WellFormed) (cwd p : Path)
    (hp : fs.Leads cwd p) : '\x00' ∉ p := by
  intro hmem
  rcases hp with ⟨a, hwalk⟩
  rcases Path.exists_segment_of_mem p _ hmem (by decide) with ⟨name, hname, hnul⟩
  rcases Path.exists_segments_join cwd p with ⟨start, hstart⟩
  rw [hstart] at hwalk
  exact nul_notMem_of_walk fs h _ [] a hwalk name (List.mem_append_right start hname) hnul

end FileSystem

end ClientPlan
