import Mathlib.Data.List.Nodup
import ClientPlan.Proofs.FileSystem.Contents
import ClientPlan.Proofs.Path.Address

/-!
# Growing File Systems

File systems that gain entries and lose none.

Writing files and making directories leaves directories directories and files files.
What a path has led to it still leads to (`Grown.walk`), and a search finds what it has
found before. The converse holds for what was there: an entry of the larger file system
at an address of the smaller one is of the same kind. Besides, the larger one is as
well formed as the smaller one, since a file or a directory is put under a name that
was looked up in a directory.

## Main definitions

* `Grown`: A file system with more entries, among them files at certain addresses.

## Theorems

* `Grown.walk`, `Grown.contains`, `Grown.isFile`, `Grown.directory?`: What is there
  stays there.
* `Grown.walk_of_notMem_up`: Paths that lead down to what was there.
* `Grown.content`: A file at no such address has the content that it had.
* `WellFormed.eq_of_at?`: File systems with the same addresses.
* `WellFormed.set`: One more entry in a directory.
* `WellFormed.write`, `WellFormed.makeDirectories`: What an operation leaves behind.
* `read_of_write`: What was written is read under the same path.
-/

namespace ClientPlan

namespace FileSystem

/-- The second file system is the first one with more directories, and with files that
    are new or have a new content at certain addresses only. -/
structure Grown (isNew : Address → Prop) (fs fs' : FileSystem) : Prop where
  directories : ∀ b, fs.at? b = some .directory → fs'.at? b = some .directory
  files : ∀ b content, fs.at? b = some (.file content) →
    ∃ content', fs'.at? b = some (.file content')
  others : ∀ b content, fs'.at? b = some (.file content) →
    isNew b ∨ fs.at? b = some (.file content)

section Grown

variable {isNew : Address → Prop} {fs fs' : FileSystem}

theorem Grown.refl (fs : FileSystem) : Grown isNew fs fs where
  directories := fun _ hb => hb
  files := fun _ content hb => ⟨content, hb⟩
  others := fun _ _ hb => Or.inr hb

theorem Grown.isSome (h : Grown isNew fs fs') (b : Address) (hb : (fs.at? b).isSome = true) :
    (fs'.at? b).isSome = true := by
  rcases Option.isSome_iff_exists.1 hb with ⟨_ | content, hentry⟩
  · rw [h.directories b hentry, Option.isSome_some]
  · rcases h.files b content hentry with ⟨content', hcontent⟩
    rw [hcontent, Option.isSome_some]

/-- What is a directory afterwards has been one if it was there at all. -/
theorem Grown.directory_of_isSome (h : Grown isNew fs fs') (b : Address)
    (hb : (fs.at? b).isSome = true) (hdirectory : fs'.at? b = some .directory) :
    fs.at? b = some .directory := by
  rcases Option.isSome_iff_exists.1 hb with ⟨_ | content, hentry⟩
  · exact hentry
  · rcases h.files b content hentry with ⟨content', hcontent⟩
    rw [hdirectory] at hcontent
    cases hcontent

/-- A file where nothing is new has the content that it had. -/
theorem Grown.content (h : Grown isNew fs fs') (b : Address) (content : List UInt8)
    (hb : ¬isNew b) : fs'.at? b = some (.file content) ↔ fs.at? b = some (.file content) := by
  constructor
  · intro hfile
    exact (h.others b content hfile).resolve_left hb
  · intro hfile
    rcases h.files b content hfile with ⟨content', hcontent⟩
    rw [(h.others b content' hcontent).resolve_left hb] at hfile
    cases hfile
    exact hcontent

/-- A walk finds what it has found before. -/
theorem Grown.walk (h : Grown isNew fs fs') (names : List Name) (a b : Address)
    (hwalk : fs.walk a names = .ok b) : fs'.walk a names = .ok b := by
  induction names generalizing a with
  | nil => exact hwalk
  | cons name names ih =>
      have hdirectory := (walk_cons_eq_ok fs name names a b hwalk).1
      rw [FileSystem.walk, hdirectory] at hwalk
      rw [FileSystem.walk, h.directories a hdirectory]
      simp only at hwalk ⊢
      by_cases hstay : name = [] ∨ name = Path.here
      · rw [if_pos hstay] at hwalk ⊢
        exact ih a hwalk
      rw [if_neg hstay] at hwalk ⊢
      by_cases hup : name = Path.up
      · rw [if_pos hup] at hwalk ⊢
        exact ih a.dropLast hwalk
      rw [if_neg hup] at hwalk ⊢
      by_cases hlong : (!fits name) = true
      · rw [if_pos hlong] at hwalk
        cases hwalk
      rw [if_neg hlong] at hwalk ⊢
      -- What the name was looked up for is still there.
      rcases hentry : fs.at? (a ++ [name]) with _ | entry
      · rw [hentry] at hwalk
        cases hwalk
      rw [hentry] at hwalk
      have hstill := h.isSome (a ++ [name]) (by rw [hentry, Option.isSome_some])
      rcases Option.isSome_iff_exists.1 hstill with ⟨entry', hentry'⟩
      rw [hentry']
      exact ih _ hwalk

theorem Grown.resolve (h : Grown isNew fs fs') (cwd p : Path) (a : Address)
    (hp : fs.resolve cwd p = .ok a) : fs'.resolve cwd p = .ok a := by
  rw [resolve_eq_ok_iff] at hp ⊢
  exact ⟨hp.1, hp.2.1, h.walk _ [] a hp.2.2⟩

theorem Grown.leads (h : Grown isNew fs fs') (cwd p : Path) (hp : fs.Leads cwd p) :
    fs'.Leads cwd p := by
  rcases hp with ⟨a, hwalk⟩
  exact ⟨a, h.walk _ [] a hwalk⟩

theorem Grown.contains (h : Grown isNew fs fs') (cwd p : Path)
    (hp : fs.contains cwd p = true) : fs'.contains cwd p = true := by
  rw [contains_iff] at hp ⊢
  exact ⟨hp.1, hp.2.1, h.leads cwd p hp.2.2⟩

theorem Grown.isFile (h : Grown isNew fs fs') (cwd p : Path) (hp : fs.isFile cwd p = true) :
    fs'.isFile cwd p = true := by
  rw [isFile_iff] at hp ⊢
  rcases hp with ⟨a, content, hresolve, hfile⟩
  rcases h.files a content hfile with ⟨content', hcontent⟩
  exact ⟨a, content', h.resolve cwd p a hresolve, hcontent⟩

theorem Grown.directory? (h : Grown isNew fs fs') (cwd p : Path) (a : Address)
    (hp : fs.directory? cwd p = some a) : fs'.directory? cwd p = some a := by
  rw [directory?_eq_some_iff] at hp ⊢
  exact ⟨h.resolve cwd p a hp.1, h.directories a hp.2⟩

theorem Grown.isDirectory (h : Grown isNew fs fs') (cwd p : Path)
    (hp : fs.isDirectory cwd p = true) : fs'.isDirectory cwd p = true := by
  rw [isDirectory_iff] at hp ⊢
  rcases hp with ⟨a, ha⟩
  exact ⟨a, h.directory? cwd p a ha⟩

/-- A path that does not go up leads to an entry that was there before, if it leads
    there now. -/
theorem Grown.walk_of_notMem_up (h : Grown isNew fs fs') (hfs : fs.WellFormed)
    (names : List Name) (b : Address) (hup : Path.up ∉ names)
    (hwalk : fs'.walk [] names = .ok b) (hb : (fs.at? b).isSome = true) :
    fs.walk [] names = .ok b := by
  rcases walk_eq_ok fs' names [] b hwalk with ⟨hend, hpassed⟩
  rw [hend] at hb ⊢
  refine walk_of_passed fs names [] (fun start rest hsplit hrest => ?_) hb
    (fits_of_walk fs' names [] b hwalk)
  -- What is passed is above the entry, or is the entry itself.
  have hprefixed : start.foldl Path.further [] <+: names.foldl Path.further [] := by
    rw [hsplit, List.foldl_append]
    refine Path.prefix_foldl_further rest _ fun hmem => hup ?_
    rw [hsplit]
    exact List.mem_append_right start hmem
  rcases hprefixed with ⟨below, hbelow⟩
  by_cases hnil : below = []
  · rw [hnil, List.append_nil] at hbelow
    have hdirectory := hpassed start rest hsplit hrest
    rw [hbelow] at hdirectory ⊢
    exact h.directory_of_isSome _ hb hdirectory
  · rw [← hbelow] at hb
    exact hfs.above _ below hnil hb

end Grown

theorem keys_put (a : Address) (entry : Entry) (entries : List (Address × Entry)) :
    (put a entry entries).map (·.1) =
      if a ∈ entries.map (·.1) then entries.map (·.1) else entries.map (·.1) ++ [a] := by
  -- The address is looked for among the keys, and added behind them.
  induction entries with
  | nil => rfl
  | cons e entries ih =>
      rcases e with ⟨b, other⟩
      rw [put]
      by_cases hb : b = a
      · rw [if_pos hb, List.map_cons, List.map_cons, if_pos (by rw [hb]; exact List.mem_cons_self)]
      · rw [if_neg hb, List.map_cons, List.map_cons, ih]
        simp only [List.mem_cons, Ne.symm hb, false_or]
        split
        · rfl
        · rw [List.cons_append]

theorem mem_put (a : Address) (entry : Entry) (entries : List (Address × Entry))
    (e : Address × Entry) (h : e ∈ put a entry entries) : e.1 = a ∨ e ∈ entries := by
  induction entries with
  | nil =>
      rw [put, List.mem_singleton] at h
      rw [h]
      exact Or.inl rfl
  | cons first entries ih =>
      rcases first with ⟨b, other⟩
      rw [put] at h
      split at h
      · rename_i hb
        rcases List.mem_cons.1 h with rfl | h
        · exact Or.inl hb
        · exact Or.inr (List.mem_cons_of_mem _ h)
      · rcases List.mem_cons.1 h with rfl | h
        · exact Or.inr List.mem_cons_self
        · exact (ih h).imp_right (List.mem_cons_of_mem _)

/-- Setting an entry that is there leaves all addresses as they are. -/
theorem keys_set (fs : FileSystem) (a : Address) (entry : Entry) (ha : a ≠ [])
    (h : (fs.at? a).isSome = true) :
    (fs.set a entry).entries.map (·.1) = fs.entries.map (·.1) := by
  rcases Option.isSome_iff_exists.1 h with ⟨old, hold⟩
  rw [at?, if_neg ha] at hold
  rw [set, keys_put, if_pos (List.mem_map.2 ⟨_, mem_of_find a old fs.entries hold, rfl⟩)]

theorem eq_of_find (entries others : List (Address × Entry))
    (hnodup : (entries.map (·.1)).Nodup) (hkeys : others.map (·.1) = entries.map (·.1))
    (hfind : ∀ a ∈ entries.map (·.1), find a others = find a entries) : others = entries := by
  induction entries generalizing others with
  | nil => exact List.map_eq_nil_iff.1 hkeys
  | cons e entries ih =>
      rcases List.map_eq_cons_iff.1 hkeys with ⟨e', others, rfl, hfirst, hrest⟩
      rcases e with ⟨a, entry⟩
      rcases e' with ⟨b, entry'⟩
      simp only at hfirst
      subst hfirst
      rw [List.map_cons, List.nodup_cons] at hnodup
      have hentry := hfind b List.mem_cons_self
      simp only [find, if_true, Option.some.injEq] at hentry
      -- No later address is the first one, so the later entries are what is found there.
      have hothers : others = entries := by
        refine ih others hnodup.2 hrest fun c hc => ?_
        have hne : b ≠ c := fun hbc => hnodup.1 (hbc ▸ hc)
        have hlater := hfind c (List.mem_cons_of_mem b hc)
        simpa only [find, if_neg hne] using hlater
      rw [hentry, hothers]

/-- File systems with the same addresses are the same if the same stands there. -/
theorem WellFormed.eq_of_at? {fs fs' : FileSystem} (h : fs.WellFormed)
    (hkeys : fs'.entries.map (·.1) = fs.entries.map (·.1)) (hat : ∀ b, fs'.at? b = fs.at? b) :
    fs' = fs := by
  have hentries : fs'.entries = fs.entries := by
    refine eq_of_find _ _ h.nodup hkeys fun a ha => ?_
    rcases List.mem_map.1 ha with ⟨e, he, rfl⟩
    have hsame := hat e.1
    rwa [at?, at?, if_neg (h.names e he).1, if_neg (h.names e he).1] at hsame
  exact congrArg FileSystem.mk hentries

/-- One more entry in a directory, unless it would replace a directory by a file. -/
theorem WellFormed.set {fs : FileSystem} (h : fs.WellFormed) (parent : Address) (name : Name)
    (entry : Entry) (hparent : fs.at? parent = some .directory) (hname : IsName name)
    (hfree : fs.at? (parent ++ [name]) = some .directory → entry = .directory) :
    (fs.set (parent ++ [name]) entry).WellFormed := by
  have hne : parent ++ [name] ≠ [] :=
    List.append_ne_nil_of_right_ne_nil parent (List.cons_ne_nil name [])
  -- Directories are still directories, so nothing has lost the place where it stands.
  have hdirectories : ∀ b, fs.at? b = some .directory →
      (fs.set (parent ++ [name]) entry).at? b = some .directory := by
    intro b hb
    rw [at?_set fs _ b entry hne]
    by_cases haddress : parent ++ [name] = b
    · rw [if_pos haddress, hfree (by rw [haddress]; exact hb)]
    · rw [if_neg haddress]
      exact hb
  constructor
  case nodup =>
    rw [FileSystem.set, keys_put]
    split
    · exact h.nodup
    · rename_i hnew
      rw [List.nodup_append]
      refine ⟨h.nodup, List.nodup_singleton _, ?_⟩
      rintro a ha b hb rfl
      rw [List.mem_singleton.1 hb] at ha
      exact hnew ha
  case names =>
    intro e he
    rcases mem_put _ entry fs.entries e he with haddress | hmem
    · rw [haddress]
      refine ⟨hne, ?_⟩
      intro n hn
      rcases List.mem_append.1 hn with hn | hn
      · exact h.isName parent (by rw [hparent, Option.isSome_some]) n hn
      · rw [List.mem_singleton.1 hn]
        exact hname
    · exact h.names e hmem
  case parents =>
    intro e he
    rcases mem_put _ entry fs.entries e he with haddress | hmem
    · rw [haddress, List.dropLast_concat]
      exact hdirectories parent hparent
    · exact hdirectories _ (h.parents e hmem)

/-- An operation acts on a name of an entry, in a directory that is there. -/
theorem isName_of_target (fs : FileSystem) (cwd p : Path) (parent : Address) (name : Name)
    (slash : Bool) (h : fs.target cwd p = .ok ⟨parent, some name, slash⟩) (hnul : '\x00' ∉ p)
    (hfits : fits name = true) : IsName name ∧ fs.at? parent = some .directory := by
  have haddress := (target_eq_ok fs cwd p parent name slash h).1
  have hstep := Path.isStep_of_mem_address cwd p name
    (by rw [← haddress]; exact List.mem_append_right parent (List.mem_singleton.2 rfl))
  rcases target_cases fs cwd p parent name slash h with ⟨hp, -, reversed, hlast, -, hparent, -⟩
  have hmem := Path.mem_segments_of_names_join cwd p _ name hp
    (names_of_lastFirst _ name reversed slash hlast).2
  rcases hstep with ⟨hne, hhere, hup, hslash⟩
  exact ⟨⟨hne, hhere, hup, hslash, fun hc => hnul (Path.mem_of_mem_segments p name hmem _ hc),
    hfits⟩, hparent⟩

section Operations

variable {fs : FileSystem} (h : fs.WellFormed)
include h

theorem WellFormed.write (fs' : FileSystem) (cwd p : Path) (content : List UInt8)
    (hwrite : fs.write cwd p content = .ok fs') : fs'.WellFormed := by
  -- Only a name that fits, behind a directory, and free of one is set.
  unfold FileSystem.write at hwrite
  split at hwrite
  · cases hwrite
  rename_i hnul
  rcases htarget : fs.target cwd p with reason | ⟨parent, _ | name, _ | _⟩
  · simp only [htarget, reduceCtorEq] at hwrite
  · simp only [htarget, reduceCtorEq] at hwrite
  · simp only [htarget, reduceCtorEq] at hwrite
  · simp only [htarget] at hwrite
    split at hwrite
    · cases hwrite
    rename_i hfits
    split at hwrite
    · cases hwrite
    · rename_i hfree
      cases hwrite
      rw [Bool.not_eq_true', Bool.not_eq_false] at hfits
      rcases isName_of_target fs cwd p parent name false htarget hnul hfits with ⟨hname, hparent⟩
      exact h.set parent name _ hparent hname fun hdirectory => absurd hdirectory hfree
  · simp only [htarget, reduceCtorEq] at hwrite

theorem WellFormed.makeDirectory (fs' : FileSystem) (cwd p : Path)
    (hmake : fs.makeDirectory cwd p = .ok fs') : fs'.WellFormed := by
  -- What is made is a directory, so nothing below it loses its parent.
  unfold FileSystem.makeDirectory at hmake
  split at hmake
  · cases hmake
  rename_i hnul
  rcases htarget : fs.target cwd p with reason | ⟨parent, _ | name, slash⟩
  · simp only [htarget, reduceCtorEq] at hmake
  · simp only [htarget, reduceCtorEq] at hmake
  · simp only [htarget] at hmake
    split at hmake
    · cases hmake
    rename_i hfits
    split at hmake
    · cases hmake
    · cases hmake
      rw [Bool.not_eq_true', Bool.not_eq_false] at hfits
      rcases isName_of_target fs cwd p parent name slash htarget hnul hfits with ⟨hname, hparent⟩
      exact h.set parent name _ hparent hname fun _ => rfl

theorem WellFormed.ensureDirectory (cwd p : Path) :
    (fs.ensureDirectory cwd p).1.WellFormed := by
  unfold FileSystem.ensureDirectory
  split
  · rename_i hmake
    exact h.makeDirectory _ cwd p hmake
  · split <;> exact h
  · exact h

end Operations

/-- What could be made and what could not, all of it is well formed. -/
theorem WellFormed.makeDirectories {fs : FileSystem} (h : fs.WellFormed) (cwd p : Path) :
    (fs.makeDirectories cwd p).1.WellFormed := by
  induction p using (measure List.length).wf.induction with
  | _ p ih =>
      rcases makeDirectories_cases fs cwd p with hown | ⟨hlacks, habove | hadded⟩
      · rw [hown]
        exact h.ensureDirectory cwd p
      · rw [habove]
        exact ih _ hlacks.2.2.2
      · rw [hadded]
        exact (ih _ hlacks.2.2.2).ensureDirectory cwd p

/-- A file that is set where there is no directory. -/
theorem grown_set (fs : FileSystem) (a : Address) (content : List UInt8) (ha : a ≠ [])
    (hfree : fs.at? a ≠ some .directory) :
    Grown (fun b => b = a) fs (fs.set a (.file content)) := by
  -- At other addresses nothing changes.
  constructor
  · intro b hb
    have hne : a ≠ b := by
      rintro rfl
      exact hfree hb
    rw [at?_set fs a b _ ha, if_neg hne]
    exact hb
  · intro b old hb
    rw [at?_set fs a b _ ha]
    by_cases hab : a = b
    · rw [if_pos hab]
      exact ⟨content, rfl⟩
    · rw [if_neg hab]
      exact ⟨old, hb⟩
  · intro b new hb
    rw [at?_set fs a b _ ha] at hb
    by_cases hab : a = b
    · exact Or.inl hab.symm
    · rw [if_neg hab] at hb
      exact Or.inr hb

/-- If no slash follows the last name, the segments end in it. -/
theorem segments_of_lastFirst (segments : List Name) (name : Name) (reversed : List Name)
    (h : lastFirst segments = (name :: reversed, false)) :
    segments = reversed.reverse ++ [name] := by
  simp only [lastFirst, Prod.mk.injEq, decide_eq_false_iff_not] at h
  rcases List.eq_nil_or_concat' segments with rfl | ⟨front, last, rfl⟩
  · cases h.1
  · have hlast : last ≠ [] := by
      rw [List.getLast?_concat, Option.some.injEq] at h
      exact h.2
    rw [List.reverse_concat, List.dropWhile_cons_of_neg (by simpa only [decide_eq_true_eq]
      using hlast), List.cons.injEq] at h
    rw [← h.1.1, ← h.1.2, List.reverse_reverse]

/-- What was written to a path is read from it. -/
theorem read_of_write (fs fs' : FileSystem) (cwd p : Path) (content : List UInt8)
    (h : fs.write cwd p content = .ok fs') : fs'.read cwd p = .ok content := by
  rcases write_eq_ok fs fs' cwd p content h with ⟨hne, hset, hfree, -⟩
  have hgrown := grown_set fs (Path.address cwd p) content hne hfree
  rw [← hset] at hgrown
  have hcontent : fs'.at? (Path.address cwd p) = some (.file content) := by
    rw [hset, at?_set fs _ _ _ hne, if_pos rfl]
  unfold FileSystem.write at h
  split at h
  · cases h
  rename_i hnul
  rcases htarget : fs.target cwd p with reason | ⟨parent, _ | name, _ | _⟩
  · simp only [htarget, reduceCtorEq] at h
  · simp only [htarget, reduceCtorEq] at h
  · simp only [htarget, reduceCtorEq] at h
  · simp only [htarget] at h
    split at h
    · cases h
    rename_i hfits
    rw [Bool.not_eq_true', Bool.not_eq_false] at hfits
    rcases target_cases fs cwd p parent name false htarget with
      ⟨hp, hshort, reversed, hlast, hwalk, hparent, hhere, hup⟩
    have haddress := (target_eq_ok fs cwd p parent name false htarget).1
    have hname := (names_of_lastFirst _ name reversed false hlast).1
    -- The walk to the directory is as before, and behind it stands the file.
    have hresolve : fs'.resolve cwd p = .ok (parent ++ [name]) := by
      rw [resolve_eq_ok_iff]
      refine ⟨hp, hshort, ?_⟩
      rw [segments_of_lastFirst _ name reversed hlast, walk_append,
        hgrown.walk _ [] parent hwalk]
      simp only
      rw [walk, hgrown.directories parent hparent]
      simp only [hname, hhere, hup, hfits, or_self, if_false, Bool.not_true, Bool.false_eq_true]
      rw [haddress, hcontent, walk]
    rw [read, if_neg hnul, hresolve]
    simp only
    rw [haddress, hcontent]
  · simp only [htarget, reduceCtorEq] at h

end FileSystem

end ClientPlan
