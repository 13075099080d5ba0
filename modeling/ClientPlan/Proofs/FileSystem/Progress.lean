import ClientPlan.Proofs.FileSystem.Walks

/-!
# File Operations that Succeed

What a path has to be like, and what has to stand on its way, for an operation to
succeed.

Nothing but the way can stop an operation on a path that the system takes as it is
written (`Admissible`). A file is written behind directories unless a directory stands
where it goes. Making directories needs less: nothing on the way may be a file. What
is missing is made from the top down, so the directories above are there by the time
that the next one is made, and each path above is a beginning of the path, so the
system takes it too.

## Main definitions

* `Admissible`: A path that the system takes as it is written.

## Theorems

* `Admissible.of_write`: A path under which a file could be written.
* `resolve_of_way`, `isDirectory_of_way`: A path behind directories.
* `target_of_above`, `target_of_lastName`: Where an operation acts behind directories.
* `write_of_above`: Writing a file behind directories.
* `makeDirectory_of_above`, `ensureDirectory_of_above`: Making one directory behind
  directories.
* `makeDirectories_of_way`: Making directories where no file is in the way.
* `makeDirectories_of_there`: Making directories that are there.
-/

namespace ClientPlan

namespace FileSystem

/-- A path that the system takes as it is written. -/
structure Admissible (cwd p : Path) : Prop where
  ne_nil : p ≠ []
  nul : '\x00' ∉ p
  length : isTooLong p = false
  names : ∀ name ∈ Path.names (Path.join cwd p), fits name = true

theorem admissible_iff (cwd p : Path) :
    Admissible cwd p ↔ p ≠ [] ∧ '\x00' ∉ p ∧ isTooLong p = false ∧
      ∀ name ∈ Path.names (Path.join cwd p), fits name = true :=
  ⟨fun h => ⟨h.ne_nil, h.nul, h.length, h.names⟩, fun h => ⟨h.1, h.2.1, h.2.2.1, h.2.2.2⟩⟩

instance (cwd p : Path) : Decidable (Admissible cwd p) :=
  decidable_of_iff _ (admissible_iff cwd p).symm

theorem Admissible.fits_of_mem_segments {cwd p : Path} (hp : Admissible cwd p) (name : Name)
    (h : name ∈ Path.segments (Path.join cwd p)) : fits name = true := by
  by_cases hname : name = []
  · rw [hname]
    decide
  · exact hp.names name (List.mem_filter.2 ⟨h, decide_eq_true hname⟩)

/-- What a path begins with is taken like the path itself. -/
theorem Admissible.of_prefix {cwd p : Path} (hp : Admissible cwd p) (q : Path) (hne : q ≠ [])
    (hstart : q <+: p)
    (hnames : ∀ name ∈ Path.names (Path.join cwd q), name ∈ Path.names (Path.join cwd p)) :
    Admissible cwd q where
  ne_nil := hne
  nul := fun h => hp.nul (hstart.subset h)
  length := by
    rcases hstart with ⟨rest, rfl⟩
    have hlength := hp.length
    unfold isTooLong Utf8.encode at hlength ⊢
    rw [List.flatMap_append, List.length_append, decide_eq_false_iff_not] at hlength
    rw [decide_eq_false_iff_not]
    omega
  names := fun name hname => hp.names name (hnames name hname)

/-- A path under which a file could be written is taken as it is. -/
theorem Admissible.of_write {fs fs' : FileSystem} {cwd p : Path} {content : List UInt8}
    (h : fs.write cwd p content = .ok fs') : Admissible cwd p := by
  unfold write at h
  split at h
  · cases h
  rename_i hnul
  rcases htarget : fs.target cwd p with reason | ⟨parent, _ | name, _ | _⟩
  · simp only [htarget, reduceCtorEq] at h
  · simp only [htarget, reduceCtorEq] at h
  · simp only [htarget, reduceCtorEq] at h
  · simp only [htarget] at h
    split at h
    · cases h
    rename_i hfits
    rw [Bool.not_eq_true', Bool.not_eq_false] at hfits
    rcases target_cases fs cwd p parent name false htarget with
      ⟨hp, hshort, reversed, hlast, hwalk, -⟩
    refine ⟨hp, hnul, hshort, ?_⟩
    -- The names in front have been walked along, and the last one is that of the file.
    rw [Path.names, (names_of_lastFirst _ name reversed false hlast).2]
    intro n hn
    rcases List.mem_append.1 hn with hn | hn
    · exact fits_of_walk fs _ [] parent hwalk n (List.mem_filter.1 hn).1
    · rw [List.mem_singleton.1 hn]
      exact hfits
  · simp only [htarget, reduceCtorEq] at h

/-- A walk along names that lead from directory to directory reaches the end. -/
theorem walk_of_directories (fs : FileSystem) (names : List Name)
    (h : ∀ start rest, names = start ++ rest → fs.at? (Path.follow start) = some .directory)
    (hfits : ∀ name ∈ names, fits name = true) :
    fs.walk [] names = .ok (Path.follow names) := by
  have hend := h names [] (List.append_nil names).symm
  rw [Path.follow] at hend ⊢
  exact walk_of_passed fs names [] (fun start rest hsplit _ => h start rest hsplit)
    (by rw [hend, Option.isSome_some]) hfits

theorem resolve_of_way (fs : FileSystem) (cwd p : Path) (hp : Admissible cwd p)
    (h : ∀ b ∈ Path.way cwd p, fs.at? b = some .directory) :
    fs.resolve cwd p = .ok (Path.address cwd p) := by
  have hwalk := walk_of_directories fs (Path.segments (Path.join cwd p))
    (fun start rest hsplit => h _ (follow_mem_way cwd p start rest hsplit))
    hp.fits_of_mem_segments
  rw [resolve, if_neg hp.ne_nil, if_neg (by rw [hp.length]; exact Bool.false_ne_true), hwalk,
    Path.address, Path.follow_names]

theorem isDirectory_of_way (fs : FileSystem) (cwd p : Path) (hp : Admissible cwd p)
    (h : ∀ b ∈ Path.way cwd p, fs.at? b = some .directory) : fs.isDirectory cwd p = true := by
  rw [isDirectory, entry?, resolve_of_way fs cwd p hp h]
  simp only [h _ (Path.address_mem_way cwd p)]

/-- Segments without a last name are empty. -/
theorem filter_eq_nil_of_lastFirst (segments : List Name) (slash : Bool)
    (h : lastFirst segments = ([], slash)) : (segments.filter fun n => n ≠ []) = [] := by
  simp only [lastFirst, Prod.mk.injEq, List.dropWhile_eq_nil_iff, List.mem_reverse] at h
  rw [List.filter_eq_nil_iff]
  intro n hn
  simpa only [ne_eq, decide_not, Bool.not_eq_true', decide_eq_false_iff_not, not_not,
    decide_eq_true_eq] using h.1 n hn

theorem mem_of_lastFirst (segments : List Name) (name : Name) (reversed : List Name)
    (slash : Bool) (h : lastFirst segments = (name :: reversed, slash)) (n : Name)
    (hn : n ∈ reversed) : n ∈ segments := by
  have hsub := List.dropWhile_sublist (fun n : Name => decide (n = [])) (l := segments.reverse)
  rw [lastFirst, Prod.mk.injEq] at h
  rw [h.1] at hsub
  exact List.mem_reverse.1 (hsub.subset (List.mem_cons_of_mem name hn))

/-- Behind directories an operation acts on the last name of its path, unless that
    name leads nowhere or up. -/
theorem target_of_above (fs : FileSystem) (cwd p : Path) (front : List Name) (name : Name)
    (hp : Admissible cwd p) (hnames : Path.names (Path.join cwd p) = front ++ [name])
    (h : ∀ b ∈ Path.above cwd p, fs.at? b = some .directory) :
    fs.target cwd p = .ok ⟨Path.follow front,
      if name = Path.here ∨ name = Path.up then none else some name,
      (lastFirst (Path.segments (Path.join cwd p))).2⟩ := by
  rw [target, if_neg hp.ne_nil, if_neg (by rw [hp.length]; exact Bool.false_ne_true)]
  rcases hlast : lastFirst (Path.segments (Path.join cwd p)) with ⟨_ | ⟨last, reversed⟩, slash⟩
  · have hempty := filter_eq_nil_of_lastFirst _ slash hlast
    rw [← Path.names] at hempty
    rw [hempty] at hnames
    exact absurd hnames.symm (List.append_ne_nil_of_right_ne_nil front (List.cons_ne_nil name []))
  · have hcut := (names_of_lastFirst _ last reversed slash hlast).2
    rw [← Path.names, hnames] at hcut
    rcases List.append_inj' hcut rfl with ⟨hfront, hname⟩
    rw [List.cons.injEq] at hname
    rw [← hname.1]
    -- Everything in front of the last name is passed as a directory.
    have hdirectory : ∀ start rest, reversed.reverse = start ++ rest →
        fs.at? (Path.follow start) = some .directory := by
      intro start rest hsplit
      refine h _ ((Path.mem_above_iff cwd p _).2 ⟨start.filter fun n => n ≠ [], ?_,
        Path.follow_filter start⟩)
      rw [hnames, List.dropLast_concat, hfront, hsplit, List.filter_append]
      exact List.prefix_append _ _
    have hparent : Path.follow reversed.reverse = Path.follow front := by
      rw [hfront, Path.follow_filter]
    have hat := hdirectory reversed.reverse [] (List.append_nil _).symm
    have hwalk := walk_of_directories fs reversed.reverse hdirectory fun n hn =>
      hp.fits_of_mem_segments n
        (mem_of_lastFirst _ last reversed slash hlast n (List.mem_reverse.1 hn))
    rw [hparent] at hwalk hat
    simp only [hwalk, hat]
    split
    · rfl
    · rfl

/-- The names of a path that has a last name. -/
theorem names_join_of_lastName (cwd p : Path) (h : Path.lastName p ≠ []) :
    Path.names (Path.join cwd p) =
      Path.names (Path.join cwd (Path.directory p)) ++ [Path.lastName p] := by
  rw [Path.names_join_directory, Path.names_of_no_slash _ (Path.slash_notMem_lastName p), if_neg h]

/-- Behind directories an operation acts on a last name that leads down, and no slash
    follows that. -/
theorem target_of_lastName (fs : FileSystem) (cwd p : Path) (hp : Admissible cwd p)
    (hname : Path.lastName p ≠ [])
    (hmoves : ¬(Path.lastName p = Path.here ∨ Path.lastName p = Path.up))
    (h : ∀ b ∈ Path.above cwd p, fs.at? b = some .directory) :
    ∃ parent, fs.target cwd p = .ok ⟨parent, some (Path.lastName p), false⟩ ∧
      parent ++ [Path.lastName p] = Path.address cwd p ∧ fits (Path.lastName p) = true := by
  have htarget := target_of_above fs cwd p _ _ hp (names_join_of_lastName cwd p hname) h
  rw [if_neg hmoves] at htarget
  have haddress := (target_eq_ok fs cwd p _ _ _ htarget).1
  have hslash : (lastFirst (Path.segments (Path.join cwd p))).2 = false := by
    simp only [lastFirst, Path.getLast?_segments_join, Option.some.injEq, hname, decide_false]
  rw [hslash] at htarget
  refine ⟨_, htarget, haddress, hp.fits_of_mem_segments _ (List.mem_of_mem_getLast? ?_)⟩
  rw [Path.getLast?_segments_join]
  exact rfl

/-- A file is written if its path ends in a name for it, there are directories on its
    way, and no directory stands where it goes. -/
theorem write_of_above (fs : FileSystem) (cwd p : Path) (content : List UInt8)
    (hp : Admissible cwd p) (hname : Path.lastName p ≠ [])
    (hmoves : ¬(Path.lastName p = Path.here ∨ Path.lastName p = Path.up))
    (h : ∀ b ∈ Path.above cwd p, fs.at? b = some .directory)
    (hfree : fs.at? (Path.address cwd p) ≠ some .directory) :
    fs.write cwd p content = .ok (fs.set (Path.address cwd p) (.file content)) := by
  rcases target_of_lastName fs cwd p hp hname hmoves h with ⟨parent, htarget, haddress, hfits⟩
  rw [write, if_neg hp.nul, htarget]
  simp only [haddress, hfits, Bool.not_true, Bool.false_eq_true, if_false, if_neg hfree]

theorem ensureDirectory_of_way (fs : FileSystem) (cwd p : Path) (hp : Admissible cwd p)
    (h : ∀ b ∈ Path.way cwd p, fs.at? b = some .directory) :
    fs.ensureDirectory cwd p = (fs, none) := by
  have hthere := isDirectory_of_way fs cwd p hp h
  unfold ensureDirectory
  rcases hmake : fs.makeDirectory cwd p with (⟨reason, path⟩ | _) | made
  · simp only [hthere, if_true]
  · -- The path holds no NUL, so this is not why the directory cannot be made.
    unfold makeDirectory at hmake
    rw [if_neg hp.nul] at hmake
    split at hmake
    · cases hmake
    · cases hmake
    · split at hmake
      · cases hmake
      · split at hmake <;> cases hmake
  · have hnone := (makeDirectory_eq_ok fs made cwd p hmake).2.2
    rw [h _ (Path.address_mem_way cwd p)] at hnone
    cases hnone

/-- A directory is made if there are directories on its way and nothing stands where
    it goes. -/
theorem makeDirectory_of_above (fs : FileSystem) (cwd p : Path) (hp : Admissible cwd p)
    (h : ∀ b ∈ Path.above cwd p, fs.at? b = some .directory)
    (hfree : fs.at? (Path.address cwd p) = none) :
    fs.makeDirectory cwd p = .ok (fs.set (Path.address cwd p) .directory) := by
  rcases List.eq_nil_or_concat' (Path.names (Path.join cwd p)) with hnil | ⟨front, name, hnames⟩
  · rw [Path.address, hnil, Path.follow, List.foldl_nil, at?_root] at hfree
    cases hfree
  have hfollow : Path.address cwd p = Path.further (Path.follow front) name := by
    rw [Path.address, hnames]
    exact Path.follow_append front [name]
  have hprefixes : ∀ b, b <+: Path.follow front → fs.at? b = some .directory := by
    intro b hb
    rcases Path.exists_follow_of_prefix front b hb with ⟨start, hstart, rfl⟩
    exact h _ ((Path.mem_above_iff cwd p _).2
      ⟨start, by rwa [hnames, List.dropLast_concat], rfl⟩)
  -- A name that leads nowhere or up would lead to a directory that is there.
  have hmoves : ¬(name = Path.here ∨ name = Path.up) := by
    rintro (rfl | rfl)
    · rw [hfollow, Path.further, if_pos (Or.inr rfl), hprefixes _ List.prefix_rfl] at hfree
      cases hfree
    · rw [hfollow, Path.further, if_neg (by decide), if_pos rfl,
        hprefixes _ (List.dropLast_prefix _)] at hfree
      cases hfree
  have htarget := target_of_above fs cwd p front name hp hnames h
  rw [if_neg hmoves] at htarget
  have haddress := (target_eq_ok fs cwd p _ _ _ htarget).1
  have hfits : fits name = true := by
    have hmem : name ∈ Path.names (Path.join cwd p) := by
      rw [hnames]
      exact List.mem_append_right front (List.mem_singleton.2 rfl)
    exact hp.names name hmem
  rw [makeDirectory, if_neg hp.nul, htarget]
  simp only [haddress, hfits, hfree, Bool.not_true, Bool.false_eq_true, if_false,
    Option.isSome_none]

/-- A directory that may be there already is there afterwards, if there are
    directories on its way and no file stands where it goes. -/
theorem ensureDirectory_of_above (fs : FileSystem) (cwd p : Path) (hp : Admissible cwd p)
    (h : ∀ b ∈ Path.above cwd p, fs.at? b = some .directory)
    (hfree : fs.at? (Path.address cwd p) = none ∨
      fs.at? (Path.address cwd p) = some .directory) :
    ∃ made, fs.ensureDirectory cwd p = (made, none) ∧
      ∀ b ∈ Path.way cwd p, made.at? b = some .directory := by
  -- It is made if it is not there, and left alone if it is.
  rcases hfree with hnone | hdirectory
  · have hmake := makeDirectory_of_above fs cwd p hp h hnone
    have hne := (makeDirectory_eq_ok fs _ cwd p hmake).1
    refine ⟨_, by rw [ensureDirectory, hmake], ?_⟩
    intro b hb
    rw [at?_set fs _ b _ hne]
    by_cases haddress : Path.address cwd p = b
    · rw [if_pos haddress]
    · rw [if_neg haddress]
      exact h b ((Path.mem_above_or_eq cwd p b hb).resolve_right (Ne.symm haddress))
  · have hway : ∀ b ∈ Path.way cwd p, fs.at? b = some .directory := by
      intro b hb
      rcases Path.mem_above_or_eq cwd p b hb with habove | rfl
      · exact h b habove
      · exact hdirectory
    exact ⟨fs, ensureDirectory_of_way fs cwd p hp hway, hway⟩

/-- The directory above and the name in it give all names of a path. -/
theorem names_join_of_above (cwd p : Path) :
    Path.names (Path.join cwd p) =
      Path.names (Path.join cwd (above p).1) ++ Path.names (above p).2 := by
  unfold above
  by_cases hlast : Path.lastName p = []
  · rw [if_pos hlast, Path.names_join_directory cwd p, hlast, Path.names_nil, List.append_nil]
    exact Path.names_join_directory cwd (Path.directory p)
  · rw [if_neg hlast]
    exact Path.names_join_directory cwd p

theorem slash_notMem_above (p : Path) : '/' ∉ (above p).2 := by
  unfold above
  split
  · exact Path.slash_notMem_lastName _
  · exact Path.slash_notMem_lastName p

theorem isAbsolute_above (p : Path) : Path.isAbsolute (above p).1 = Path.isAbsolute p := by
  unfold above
  split
  · rw [Path.isAbsolute_directory, Path.isAbsolute_directory]
  · exact Path.isAbsolute_directory p

theorem prefix_of_above (p : Path) : (above p).1 <+: p := by
  unfold above
  split
  · exact (Path.directory_prefix _).trans (Path.directory_prefix p)
  · exact Path.directory_prefix p

theorem length_above_lt (p : Path) (h : (above p).2 ≠ []) : (above p).1.length < p.length := by
  unfold above at h ⊢
  by_cases hlast : Path.lastName p = []
  · rw [if_pos hlast] at h ⊢
    have hfirst := Path.length_directory_lt _ h
    have hsecond := Path.length_directory_le p
    simp only
    omega
  · rw [if_neg hlast] at h ⊢
    exact Path.length_directory_lt p h

/-- A path without a name consists of slashes, and stands for the root. -/
theorem names_join_of_above_nil (cwd p : Path) (hp : p ≠ []) (h : (above p).2 = []) :
    Path.names (Path.join cwd p) = [] := by
  unfold above at h
  by_cases hlast : Path.lastName p = []
  · rw [if_pos hlast] at h
    have hslashes := Path.directory_of_lastName_nil p h
    have hbeginning := Path.beginning_append_lastName p
    rw [hlast, List.append_nil] at hbeginning
    rcases Path.directory_append_slashes p with ⟨slashes, hsplit, hrest, -⟩
    -- Without a name there are only slashes in the path.
    have hall : ∀ c ∈ p, c = '/' := by
      intro c hc
      rw [← hbeginning, hsplit] at hc
      rcases List.mem_append.1 hc with hc | hc
      · exact hslashes c hc
      · exact hrest c hc
    have habsolute : Path.isAbsolute p = true := by
      cases p with
      | nil => exact absurd rfl hp
      | cons c p =>
          rw [hall c List.mem_cons_self]
          rfl
    rw [Path.join, if_pos habsolute, Path.names_of_slashes p hall]
  · rw [if_neg hlast] at h
    exact absurd h hlast

/-- With a name in it, the way to a directory is all that is above that name. -/
theorem mem_way_of_mem_above (cwd p : Path) (h : (above p).2 ≠ []) (b : Address)
    (hb : b ∈ Path.above cwd p) : b ∈ Path.way cwd (above p).1 := by
  rcases (Path.mem_above_iff cwd p b).1 hb with ⟨start, hstart, hfollow⟩
  rw [names_join_of_above, Path.names_of_no_slash _ (slash_notMem_above p), if_neg h,
    List.dropLast_concat] at hstart
  exact (Path.mem_way_iff cwd _ b).2 ⟨start, hstart, hfollow⟩

/-- Nothing but the root is above a path without a name. -/
theorem directory_of_above_nil (fs : FileSystem) (cwd p : Path) (hp : p ≠ [])
    (h : (above p).2 = []) (b : Address) (hb : b ∈ Path.above cwd p) :
    fs.at? b = some .directory := by
  rcases (Path.mem_above_iff cwd p b).1 hb with ⟨start, hstart, rfl⟩
  rw [names_join_of_above_nil cwd p hp h, List.dropLast_nil, List.prefix_nil] at hstart
  rw [hstart]
  exact at?_root fs

/-- The directory above a path is taken like the path itself. -/
theorem admissible_above (cwd p : Path) (hp : Admissible cwd p) (h : (above p).1 ≠ []) :
    Admissible cwd (above p).1 := by
  refine hp.of_prefix _ h (prefix_of_above p) fun name hname => ?_
  rw [names_join_of_above]
  exact List.mem_append_left _ hname

/-- A path that ends in a name that leads nowhere leads to the directory above. -/
theorem address_of_above_here (cwd p : Path) (h : (above p).2 = Path.here) :
    Path.address cwd p = Path.address cwd (above p).1 := by
  rw [Path.address, names_join_of_above, h, Path.follow_append]
  rfl

/-- A directory is made after the directories above it. -/
theorem makeDirectories_of_made_above (fs made : FileSystem) (cwd p : Path)
    (hp : Admissible cwd p) (h : LacksAbove fs cwd p)
    (hend : fs.at? (Path.address cwd p) = none ∨
      fs.at? (Path.address cwd p) = some .directory)
    (hmade : fs.makeDirectories cwd (above p).1 = (made, none))
    (hdirectories : ∀ b ∈ Path.way cwd (above p).1, made.at? b = some .directory) :
    ∃ made, fs.makeDirectories cwd p = (made, none) ∧
      ∀ b ∈ Path.way cwd p, made.at? b = some .directory := by
  rw [makeDirectories_of_lacksAbove fs made cwd p h hmade]
  have habove : ∀ b ∈ Path.above cwd p, made.at? b = some .directory := fun b hb =>
    hdirectories b (mem_way_of_mem_above cwd p h.2.1 b hb)
  by_cases hhere : (above p).2 = Path.here
  · rw [if_pos hhere]
    refine ⟨made, rfl, fun b hb => ?_⟩
    rcases Path.mem_above_or_eq cwd p b hb with hb | rfl
    · exact habove b hb
    · rw [address_of_above_here cwd p hhere]
      exact hdirectories _ (Path.address_mem_way cwd _)
  · rw [if_neg hhere]
    -- What was made above has left the end of the way free, or has made it.
    have hadds := makeDirectories_addsOnWay fs cwd (above p).1
    rw [hmade] at hadds
    refine ensureDirectory_of_above made cwd p hp habove ?_
    rcases hadds (Path.address cwd p) with hsame | ⟨-, -, hdirectory⟩
    · rwa [hsame]
    · exact Or.inr hdirectory

/-- If nothing has to be made first, there are directories above a path. -/
theorem directory_of_not_lacksAbove (fs : FileSystem) (cwd p : Path)
    (htail : (above p).2 ≠ []) (h : ¬LacksAbove fs cwd p)
    (hcwd : Path.isAbsolute p = false → ∀ b ∈ Path.way cwd [], fs.at? b = some .directory)
    (hfree : ∀ b ∈ Path.way cwd p, fs.at? b = none ∨ fs.at? b = some .directory) (b : Address)
    (hb : b ∈ Path.above cwd p) : fs.at? b = some .directory := by
  have hway := mem_way_of_mem_above cwd p htail b hb
  by_cases hhead : (above p).1 = []
  · -- Only the working directory is above.
    have hrelative : Path.isAbsolute p = false := by
      rw [← isAbsolute_above, hhead]
      rfl
    rw [hhead] at hway
    exact hcwd hrelative b hway
  · have hcontains : fs.contains cwd (above p).1 = true := by
      by_contra hnone
      rw [Bool.not_eq_true] at hnone
      exact h ⟨hhead, htail, by rw [hnone, Bool.not_false], length_above_lt p htail⟩
    exact way_of_contains fs cwd _ hcontains
      (hfree _ (way_above_subset cwd p _ (Path.address_mem_way cwd _))) b hway

/-- A directory is made together with those above it if nothing on its way is a
    file. -/
theorem makeDirectories_of_way (fs : FileSystem) (cwd p : Path) (hp : Admissible cwd p)
    (hcwd : Path.isAbsolute p = false → ∀ b ∈ Path.way cwd [], fs.at? b = some .directory)
    (h : ∀ b ∈ Path.way cwd p, fs.at? b = none ∨ fs.at? b = some .directory) :
    ∃ made, fs.makeDirectories cwd p = (made, none) ∧
      ∀ b ∈ Path.way cwd p, made.at? b = some .directory := by
  -- By induction on the length: the directories above have a shorter path.
  induction p using (measure List.length).wf.induction with
  | _ p ih =>
      have hend := h _ (Path.address_mem_way cwd p)
      by_cases hlacks : LacksAbove fs cwd p
      · rcases ih (above p).1 hlacks.2.2.2 (admissible_above cwd p hp hlacks.1)
          (by rw [isAbsolute_above]; exact hcwd)
          (fun b hb => h b (way_above_subset cwd p b hb)) with ⟨made, hmade, hdirectories⟩
        exact makeDirectories_of_made_above fs made cwd p hp hlacks hend hmade hdirectories
      · rw [makeDirectories_of_not_lacksAbove fs cwd p hlacks]
        refine ensureDirectory_of_above fs cwd p hp ?_ hend
        by_cases htail : (above p).2 = []
        · exact directory_of_above_nil fs cwd p hp.ne_nil htail
        · exact directory_of_not_lacksAbove fs cwd p htail hlacks hcwd h

/-- Nothing is made where all directories are there. -/
theorem makeDirectories_of_there (fs : FileSystem) (cwd p : Path) (hp : Admissible cwd p)
    (h : ∀ b ∈ Path.way cwd p, fs.at? b = some .directory) :
    fs.makeDirectories cwd p = (fs, none) := by
  -- The directory above is found, so it is not made first.
  have hfound : ¬LacksAbove fs cwd p := by
    rintro ⟨hhead, -, hmissing, -⟩
    have hresolve := resolve_of_way fs cwd _ (admissible_above cwd p hp hhead)
      fun b hb => h b (way_above_subset cwd p b hb)
    have hthere := h _ (way_above_subset cwd p _ (Path.address_mem_way cwd (above p).1))
    rw [contains, entry?, hresolve] at hmissing
    simp only [hthere, Option.isSome_some, Bool.not_true, Bool.false_eq_true] at hmissing
  rw [makeDirectories_of_not_lacksAbove fs cwd p hfound]
  exact ensureDirectory_of_way fs cwd p hp h

end FileSystem

end ClientPlan
