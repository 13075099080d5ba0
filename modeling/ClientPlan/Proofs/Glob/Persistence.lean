import ClientPlan.Proofs.Glob.Expansion

/-!
# Searches in a Growing File System

What a pattern stands for when files and directories are added.

What a search has found it finds again, since all that it has looked at is still there.
It may find more. But every step of a search looks at something that the path found
leads through, so a path that has led somewhere before is found only if it was found
before (`Search.Stands.of_grown`).

An expansion fails only if a wildcard is looked for in a directory whose path holds a
NUL character. No path that is found holds one, so this is a question of the
pattern alone, and an expansion that succeeds in one file system succeeds in all of
them (`exists_expand_ok`).

## Theorems

* `Search.Stands.nul_notMem`: No path that is found holds a NUL character.
* `exists_expand_ok`: An expansion succeeds in every file system or in none.
* `Search.Finds.grown`, `Search.Finds.of_grown`: What a last part stands for in a
  directory, in the larger and in the smaller file system.
* `Search.Stands.grown`, `Search.Stands.of_grown`: The same of whole patterns.
-/

namespace ClientPlan

namespace FileSystem

theorem isStep_of_isName (name : Name) (h : IsName name) : Path.IsStep name :=
  ⟨h.1, h.2.1, h.2.2.1, h.2.2.2.1⟩

/-- A path that leads somewhere through a directory leads to that directory too. -/
theorem leads_of_append_slash (fs : FileSystem) (cwd p rest : Path) (hp : p ≠ [])
    (h : fs.Leads cwd (p ++ '/' :: rest)) : fs.Leads cwd p := by
  rcases h with ⟨a, hwalk⟩
  rcases Path.exists_join_eq cwd p with ⟨front, hjoin, hrest⟩
  rw [hrest hp, Path.segments_append_slash, walk_append, ← hjoin] at hwalk
  rcases hstart : fs.walk [] (Path.segments (Path.join cwd p)) with reason | base
  · rw [hstart] at hwalk
    cases hwalk
  · exact ⟨base, hstart⟩

/-- A path that ends in slashes leads somewhere only if it does without them. -/
theorem leads_directory_of_lastName_nil (fs : FileSystem) (cwd p : Path)
    (hlast : Path.lastName p = []) (hne : Path.directory p ≠ []) (h : fs.Leads cwd p) :
    fs.Leads cwd (Path.directory p) := by
  rcases Path.directory_append_slashes p with ⟨slashes, hbeginning, hslashes, -⟩
  have hsplit := Path.beginning_append_lastName p
  rw [hlast, List.append_nil, hbeginning] at hsplit
  -- If there are slashes, a first one ends the directory.
  cases slashes with
  | nil =>
      rw [List.append_nil] at hsplit
      rw [hsplit]
      exact h
  | cons c slashes =>
      rw [hslashes c List.mem_cons_self] at hsplit
      rw [← hsplit] at h
      exact leads_of_append_slash fs cwd _ slashes hne h

/-- What was a directory afterwards and leads somewhere before has been one before. -/
theorem Grown.directory?_of_leads {isNew : Address → Prop} {fs fs' : FileSystem}
    (h : Grown isNew fs fs') (cwd p : Path) (hleads : fs.Leads cwd p) (a : Address)
    (hdirectory : fs'.directory? cwd p = some a) : fs.directory? cwd p = some a := by
  rcases hleads with ⟨b, hwalk⟩
  rw [directory?_eq_some_iff, resolve_eq_ok_iff] at hdirectory ⊢
  rcases hdirectory with ⟨⟨hne, hshort, hwalk'⟩, hentry⟩
  have hsame := h.walk _ [] b hwalk
  rw [hwalk', Except.ok.injEq] at hsame
  rw [hsame] at hentry ⊢
  exact ⟨⟨hne, hshort, hwalk⟩, h.directory_of_isSome b (isSome_of_walk fs _ b hwalk) hentry⟩

/-- The working directory can be named or not. -/
theorem walk_orHere_iff (fs : FileSystem) (cwd dir : Path) (base : Address)
    (hbase : fs.at? base = some .directory) :
    fs.walk [] (Path.segments (Path.join cwd (Path.orHere dir))) = .ok base ↔
      fs.walk [] (Path.segments (Path.join cwd dir)) = .ok base := by
  by_cases hdir : dir = []
  · -- Behind the working directory both spellings lead nowhere.
    have hcwd : ∀ p : Path, Path.isAbsolute p = false →
        (∀ b, fs.at? b = some .directory → fs.walk b (Path.segments p) = .ok b) →
        (fs.walk [] (Path.segments (Path.join cwd p)) = .ok base ↔
          fs.walk [] (Path.segments (Path.join [] cwd)) = .ok base) := by
      intro p hp hstay
      have hnone (q : Path) : Path.join [] q = q := by
        rw [Path.join, if_pos (Or.inl rfl), List.nil_append, ite_self]
      have hiff := walk_join_iff fs [] cwd p base hp
      rw [hnone] at hiff
      rw [hiff]
      constructor
      · rintro ⟨b, hwalk, hb, hrest⟩
        rw [hstay b hb, Except.ok.injEq] at hrest
        exact hrest ▸ hwalk
      · intro hwalk
        exact ⟨base, hwalk, hbase, hstay base hbase⟩
    rw [hdir]
    refine (hcwd Path.here rfl fun b hb => ?_).trans (hcwd [] rfl fun b hb => ?_).symm
    · rw [Path.segments_of_no_slash _ (by decide), walk, hb]
      rfl
    · rw [Path.segments, walk, hb]
      rfl
  · rw [Path.orHere_of_ne_nil dir hdir]

theorem walk_join_orHere_iff (fs : FileSystem) (cwd dir p : Path) (a : Address)
    (h : Path.isAbsolute p = false) :
    fs.walk [] (Path.segments (Path.join cwd (Path.join (Path.orHere dir) p))) = .ok a ↔
      fs.walk [] (Path.segments (Path.join cwd (Path.join dir p))) = .ok a := by
  rw [walk_join_iff fs cwd _ p a h, walk_join_iff fs cwd dir p a h]
  refine exists_congr fun base => ?_
  rw [← and_assoc, ← and_assoc]
  exact and_congr_left' (and_congr_left fun hbase => walk_orHere_iff fs cwd dir base hbase)

/-- What is below a directory has been there before if the path to it has led
    somewhere. -/
theorem Grown.isSome_of_leads {isNew : Address → Prop} {fs fs' : FileSystem}
    (h : Grown isNew fs fs') (cwd dir : Path) (base names : Address) (hne : names ≠ [])
    (hnames : ∀ name ∈ names, Path.IsStep name)
    (hleads : fs.Leads cwd (Path.join dir (Path.ofSegments names)))
    (hdirectory : fs'.directory? cwd (Path.orHere dir) = some base) :
    fs.directory? cwd (Path.orHere dir) = some base ∧ (fs.at? (base ++ names)).isSome = true := by
  rcases hleads with ⟨a, hwalk⟩
  have hrelative := Path.not_slash_head_ofSegments names hnames
  have hseen := (walk_join_orHere_iff fs cwd dir _ a hrelative).2 hwalk
  rcases (walk_join_iff fs cwd _ _ a hrelative).1 hseen with ⟨b, hdir, -, hdown⟩
  have hbefore := h.directory?_of_leads cwd _ ⟨b, hdir⟩ base hdirectory
  have hboth := hbefore
  rw [directory?_eq_some_iff, resolve_eq_ok_iff, hdir, Except.ok.injEq] at hboth
  -- The walk from the directory ends at the entry.
  have hend := (walk_eq_ok fs _ b a hdown).1
  rw [Path.segments_ofSegments names hne fun name hname => (hnames name hname).2.2.2,
    Path.foldl_further_of_isStep names b hnames, hboth.1.2.2] at hend
  refine ⟨hbefore, ?_⟩
  rw [← hend]
  exact isSome_of_walk fs _ a hwalk

end FileSystem

namespace Glob

section Searches

variable {s : Search} {onlyDirectories : Bool}

theorem Search.Finds.relative (hfs : s.fs.WellFormed) {dir p : Path} {part : Name}
    (hpart : '/' ∉ part) (h : s.Finds onlyDirectories dir part p) : Path.isAbsolute p = false := by
  cases h with
  | here _ _ _ => rfl
  | entry _ _ _ => exact Path.isAbsolute_of_no_slash _ hpart
  | start _ _ _ => rfl
  | below _ _ _ _ there _ _ _ =>
      -- Names of entries hold no slash.
      refine Path.not_slash_head_ofSegments _ fun name hname => ?_
      exact FileSystem.isStep_of_isName name (hfs.isName _ (by rw [there, Option.isSome_some]) name
        (List.mem_append_right _ hname))
  | child _ _ _ there _ _ _ =>
      refine Path.isAbsolute_of_no_slash _ ?_
      exact (hfs.isName _ (by rw [there, Option.isSome_some]) _
        (List.mem_append_right _ (List.mem_singleton.2 rfl))).2.2.2.1

theorem Search.Finds.nul_notMem (hfs : s.fs.WellFormed) {dir p : Path} {part : Name}
    (hdir : '\x00' ∉ dir) (h : s.Finds onlyDirectories dir part p) :
    '\x00' ∉ Path.join dir p := by
  -- What is put behind the directory consists of names.
  have hown : '\x00' ∉ p → '\x00' ∉ Path.join dir p := by
    intro hp hmem
    rcases Path.mem_join dir p _ hmem with hmem | hslash | hmem
    · exact hdir hmem
    · exact absurd hslash (by decide)
    · exact hp hmem
  cases h with
  | here _ _ _ => exact hown List.not_mem_nil
  | entry _ _ there =>
      rw [FileSystem.contains_iff] at there
      exact FileSystem.nul_notMem_of_leads s.fs hfs s.cwd _ there.2.2
  | start _ _ _ => exact hown List.not_mem_nil
  | below _ _ _ _ there _ _ _ =>
      refine hown fun hmem => ?_
      rcases Path.mem_ofSegments _ _ hmem with hslash | ⟨name, hname, hnul⟩
      · exact absurd hslash (by decide)
      · exact (hfs.isName _ (by rw [there, Option.isSome_some]) name
          (List.mem_append_right _ hname)).2.2.2.2.1 hnul
  | child _ _ _ there _ _ _ =>
      exact hown (hfs.isName _ (by rw [there, Option.isSome_some]) _
        (List.mem_append_right _ (List.mem_singleton.2 rfl))).2.2.2.2.1

/-- No path that a pattern stands for holds a NUL character. -/
theorem Search.Stands.nul_notMem (hfs : s.fs.WellFormed) {pattern p : Path}
    (h : s.Stands onlyDirectories pattern p) : '\x00' ∉ p := by
  induction h with
  | @itself _ pattern _ there =>
      by_cases hlast : Path.lastName pattern = []
      · -- Behind the directory are slashes only.
        rw [if_pos hlast, FileSystem.isDirectory_iff] at there
        rcases there with ⟨a, ha⟩
        have hwalk := ((FileSystem.resolve_eq_ok_iff _ _ _ a).1
          ((FileSystem.directory?_eq_some_iff _ _ _ a).1 ha).1).2.2
        have hdir := FileSystem.nul_notMem_of_leads s.fs hfs s.cwd _ ⟨a, hwalk⟩
        intro hmem
        rcases Path.directory_cases pattern with ⟨-, slashes, hslashes, hp⟩ | ⟨hp, -⟩
        · rw [hp, hlast, List.append_nil, List.mem_append, List.mem_cons] at hmem
          rcases hmem with hmem | hslash | hmem
          · exact hdir hmem
          · exact absurd hslash (by decide)
          · exact absurd (hslashes _ hmem) (by decide)
        · rw [hp, hlast, List.append_nil] at hmem
          exact hdir hmem
      · rw [if_neg hlast, FileSystem.contains_iff] at there
        exact FileSystem.nul_notMem_of_leads s.fs hfs s.cwd _ there.2.2
  | beneath _ _ _ found ih => exact found.nul_notMem hfs ih
  | within _ _ askable found => exact found.nul_notMem hfs askable

end Searches

/-- An expansion succeeds in every file system or in none. -/
theorem exists_expand_ok (s s' : Search) (hfs' : s'.fs.WellFormed) (onlyDirectories : Bool)
    (pattern : Path) (found : List Path) (h : s.expand onlyDirectories pattern = .ok found) :
    ∃ found', s'.expand onlyDirectories pattern = .ok found' := by
  -- By induction on the length, as the search goes.
  induction pattern using (measure List.length).wf.induction generalizing onlyDirectories found
    with
  | _ pattern ih =>
      by_cases hwild : isPattern pattern = true
      · by_cases hdir : isPattern (Path.directory pattern) = true
        · rw [expand_of_isPattern s onlyDirectories pattern hwild hdir] at h
          rw [expand_of_isPattern s' onlyDirectories pattern hwild hdir]
          rcases hdirs : s.expand true (Path.directory pattern) with fault | dirs
          · rw [hdirs] at h
            cases h
          rcases ih _ (length_directory_lt_of_isPattern pattern hdir) true dirs hdirs with
            ⟨dirs', hdirs'⟩
          rw [hdirs']
          refine exists_matchingAll_ok s' _ onlyDirectories _ fun _ d hd => ?_
          rw [List.mem_eraseDups, mem_expand_iff s' hfs' true _ dirs' hdirs'] at hd
          -- What has been found holds no NUL character, so it can be searched.
          exact hd.nul_notMem hfs'
        · rw [Bool.not_eq_true] at hdir
          rw [expand_of_plain_directory s onlyDirectories pattern hwild hdir] at h
          rw [expand_of_plain_directory s' onlyDirectories pattern hwild hdir]
          refine exists_matchingAll_ok s' _ onlyDirectories _ fun hpattern d hd => ?_
          rw [List.mem_singleton.1 hd]
          exact nul_notMem_of_matchingAll s _ onlyDirectories _ found hpattern h
      · rw [Bool.not_eq_true] at hwild
        rw [Search.expand]
        simp only [hwild, Bool.not_false, if_true]
        split
        · exact ⟨_, rfl⟩
        · exact ⟨_, rfl⟩

section Growth

variable {isNew : Address → Prop} {fs fs' : FileSystem} {cwd : Path} {recursive : Bool}
  {onlyDirectories : Bool}

theorem wanted_grown (h : FileSystem.Grown isNew fs fs') (b : Address) (entry : Entry)
    (there : fs.at? b = some entry) (asked : wanted onlyDirectories entry = true) :
    ∃ entry', fs'.at? b = some entry' ∧ wanted onlyDirectories entry' = true := by
  cases entry with
  | directory => exact ⟨.directory, h.directories b there, asked⟩
  | file content =>
      rcases h.files b content there with ⟨content', hcontent⟩
      exact ⟨.file content', hcontent, asked⟩

theorem wanted_of_grown (h : FileSystem.Grown isNew fs fs') (b : Address) (entry : Entry)
    (hb : (fs.at? b).isSome = true) (there : fs'.at? b = some entry)
    (asked : wanted onlyDirectories entry = true) :
    ∃ entry', fs.at? b = some entry' ∧ wanted onlyDirectories entry' = true := by
  rcases Option.isSome_iff_exists.1 hb with ⟨_ | content, hentry⟩
  · -- A directory is still one, and it was asked for if anything was.
    rw [h.directories b hentry, Option.some.injEq] at there
    exact ⟨.directory, hentry, by rw [there]; exact asked⟩
  · rcases h.files b content hentry with ⟨content', hcontent⟩
    rw [hcontent, Option.some.injEq] at there
    rw [← there] at asked
    exact ⟨.file content, hentry, asked⟩

/-- What a part has stood for in a directory it still stands for. -/
theorem Search.Finds.grown (h : FileSystem.Grown isNew fs fs') {dir p : Path} {part : Name}
    (hfinds : Search.Finds ⟨fs, cwd, recursive⟩ onlyDirectories dir part p) :
    Search.Finds ⟨fs', cwd, recursive⟩ onlyDirectories dir part p := by
  cases hfinds with
  | here plain empty there => exact .here plain empty (h.isDirectory cwd dir there)
  | entry plain named there => exact .entry plain named (h.contains cwd _ there)
  | start pattern deep named => exact .start pattern deep named
  | below pattern deep leads down there short asked visible =>
      rcases wanted_grown h _ _ there asked with ⟨entry', there', asked'⟩
      exact .below pattern deep (h.directory? cwd _ _ leads) down there' short asked' visible
  | child pattern shallow leads there asked visible matched =>
      rcases wanted_grown h _ _ there asked with ⟨entry', there', asked'⟩
      exact .child pattern shallow (h.directory? cwd _ _ leads) there' asked' visible matched

/-- What a part stands for in a directory it has stood for before, if the path to it
    has led somewhere. -/
theorem Search.Finds.of_grown (h : FileSystem.Grown isNew fs fs') (hfs' : fs'.WellFormed)
    {dir p : Path} {part : Name} (hleads : fs.Leads cwd (Path.join dir p))
    (hfinds : Search.Finds ⟨fs', cwd, recursive⟩ onlyDirectories dir part p) :
    Search.Finds ⟨fs, cwd, recursive⟩ onlyDirectories dir part p := by
  cases hfinds with
  | here plain empty there =>
      rcases (FileSystem.leads_join_iff fs cwd dir [] rfl).1 hleads with ⟨base, hdir, -, -⟩
      rcases (FileSystem.isDirectory_iff fs' cwd dir).1 there with ⟨a, ha⟩
      have hbefore := h.directory?_of_leads cwd dir ⟨base, hdir⟩ a ha
      exact .here plain empty ((FileSystem.isDirectory_iff fs cwd dir).2 ⟨a, hbefore⟩)
  | entry plain named there =>
      have hcontains := (FileSystem.contains_iff fs' cwd _).1 there
      exact .entry plain named
        ((FileSystem.contains_iff fs cwd _).2 ⟨hcontains.1, hcontains.2.1, hleads⟩)
  | start pattern deep named => exact .start pattern deep named
  | below pattern deep leads down there short asked visible =>
      have hnames := fun name hname => FileSystem.isStep_of_isName name
        (hfs'.isName _ (by rw [there, Option.isSome_some]) name (List.mem_append_right _ hname))
      -- Something has been there before, and it is of the same kind.
      rcases h.isSome_of_leads cwd dir _ _ down hnames hleads leads with ⟨hdir, hsome⟩
      rcases wanted_of_grown h _ _ hsome there asked with ⟨entry', there', asked'⟩
      exact .below pattern deep hdir down there' short asked' visible
  | child pattern shallow leads there asked visible matched =>
      have hnames : ∀ n ∈ [p], Path.IsStep n := fun n hn => FileSystem.isStep_of_isName n
        (hfs'.isName _ (by rw [there, Option.isSome_some]) n (List.mem_append_right _ hn))
      rcases h.isSome_of_leads cwd dir _ [p] (List.cons_ne_nil p []) hnames hleads leads with
        ⟨hdir, hsome⟩
      rcases wanted_of_grown h _ _ hsome there asked with ⟨entry', there', asked'⟩
      exact .child pattern shallow hdir there' asked' visible matched

/-- What a pattern has stood for it still stands for. -/
theorem Search.Stands.grown (h : FileSystem.Grown isNew fs fs') {pattern p : Path}
    (hstands : Search.Stands ⟨fs, cwd, recursive⟩ onlyDirectories pattern p) :
    Search.Stands ⟨fs', cwd, recursive⟩ onlyDirectories pattern p := by
  induction hstands with
  | @itself _ pattern plain there =>
      refine .itself plain ?_
      by_cases hlast : Path.lastName pattern = []
      · rw [if_pos hlast] at there ⊢
        exact h.isDirectory cwd _ there
      · rw [if_neg hlast] at there ⊢
        exact h.contains cwd _ there
  | beneath wild before _ found ih => exact .beneath wild before ih (found.grown h)
  | within wild before askable found => exact .within wild before askable (found.grown h)

/-- What a pattern stands for it has stood for before, if the path has led
    somewhere. -/
theorem Search.Stands.of_grown (h : FileSystem.Grown isNew fs fs') (hfs' : fs'.WellFormed)
    {pattern p : Path} (hleads : fs.Leads cwd p)
    (hstands : Search.Stands ⟨fs', cwd, recursive⟩ onlyDirectories pattern p) :
    Search.Stands ⟨fs, cwd, recursive⟩ onlyDirectories pattern p := by
  induction hstands with
  | @itself _ pattern plain there =>
      refine .itself plain ?_
      by_cases hlast : Path.lastName pattern = []
      · rw [if_pos hlast] at there ⊢
        rcases (FileSystem.isDirectory_iff fs' cwd _).1 there with ⟨a, ha⟩
        have hne := ((FileSystem.resolve_eq_ok_iff fs' cwd _ a).1
          ((FileSystem.directory?_eq_some_iff fs' cwd _ a).1 ha).1).1
        have hdir := FileSystem.leads_directory_of_lastName_nil fs cwd pattern hlast hne hleads
        exact (FileSystem.isDirectory_iff fs cwd _).2
          ⟨a, h.directory?_of_leads cwd _ hdir a ha⟩
      · rw [if_neg hlast] at there ⊢
        have hcontains := (FileSystem.contains_iff fs' cwd pattern).1 there
        exact (FileSystem.contains_iff fs cwd pattern).2 ⟨hcontains.1, hcontains.2.1, hleads⟩
  | @beneath _ pattern dir p wild before _ found ih =>
      have hrelative := found.relative hfs' (Path.slash_notMem_lastName pattern)
      -- A path leads somewhere only if its directory does.
      rcases (FileSystem.leads_join_iff fs cwd dir p hrelative).1 hleads with ⟨base, hdir, -, -⟩
      exact .beneath wild before (ih ⟨base, hdir⟩) (found.of_grown h hfs' hleads)
  | within wild before askable found =>
      exact .within wild before askable (found.of_grown h hfs' hleads)

end Growth

end Glob

end ClientPlan
