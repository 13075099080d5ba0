import ClientPlan.Proofs.Generation.Collisions
import ClientPlan.Proofs.Generation.Placement

/-!
# Plans Mirror Their Sources

Where plans are written relative to each other.

Below the output directory a plan stands in the place that its definition file has below
the directory common to all of them. That directory begins the directory of each file,
and what is left of it behind the common part says which one it is: no two directories
are taken for one, and there is no way up among the names that are left. So for services
whose names are names of files, collisions can be told from the sources alone. Two
services collide if they have one name and come from one directory, with or without an
output directory.

A file whose path starts with exactly two slashes has to be left out. Its directory has a
normal spelling of its own, but the common directory does not tell it from the one with a
single slash.

## Main definitions

* `Path.IsFilePath`: The paths of definition files.

## Theorems

* `normalize_directory_eq_iff`: When two files are in one directory.
* `exists_below`: The names of a directory below the common one.
* `directory_of_below`: The directory of a plan.
* `keyOf_eq_iff`: When two services have one plan file.
* `collisions_mirror_sources`: Collisions and output directories, by the sources.
-/

namespace ClientPlan

namespace Path

/-- The path of a file, as seen from the root: it does not start with exactly two
    slashes, and it ends in a name. -/
structure IsFilePath (p : Path) : Prop where
  absolute : isAbsolute p = true
  slashes : rootSlashes p ≠ ['/', '/']
  name : IsStep (lastName p)

theorem IsFilePath.directory {p : Path} (h : IsFilePath p) :
    isAbsolute (directory p) = true ∧ rootSlashes (Path.directory p) = ['/'] := by
  rw [isAbsolute_directory, rootSlashes_directory]
  exact ⟨h.absolute, (rootSlashes_cases p h.absolute).resolve_right h.slashes⟩

/-- The directories of two files have one normal spelling if they have one address. -/
theorem normalize_directory_eq_iff (cwd p q : Path) (hcwd : isAbsolute cwd = true)
    (hp : IsFilePath p) (hq : IsFilePath q) :
    normalize (directory p) = normalize (directory q) ↔
      address cwd (directory p) = address cwd (directory q) := by
  have hnormal := absolute_eq_iff cwd (directory p) (directory q) hcwd
  rw [absolute, absolute, join_of_isAbsolute cwd _ hp.directory.1,
    join_of_isAbsolute cwd _ hq.directory.1, hp.directory.2, hq.directory.2] at hnormal
  rw [hnormal]
  exact ⟨fun h => h.2, fun h => ⟨rfl, h⟩⟩

end Path

namespace Output

open Generation (commonBase)

variable {cwd outputDir : Path} {sources : List Path}

/-- The directory of a source is the common directory, and some names below it. -/
theorem exists_below (source : Path) (hcwd : Path.isAbsolute cwd = true)
    (hsource : source ∈ sources) :
    ∃ base below, commonBase cwd sources = some base ∧ Path.isAbsolute base = true ∧
      Path.address cwd base = Path.names base ∧ (∀ name ∈ below, Path.IsStep name) ∧
      Path.address cwd (Path.directory source) = Path.names base ++ below := by
  rcases hbase : commonBase cwd sources with _ | base
  · -- There is a source, so there is a common directory.
    unfold commonBase Path.commonDirectory at hbase
    rw [if_neg (List.ne_nil_of_mem (List.mem_map_of_mem hsource))] at hbase
    cases hbase
  have hbegins := commonNames_prefix_address cwd source sources hcwd hsource
  have hstep := Path.isStep_of_mem_address cwd (Path.directory source)
  -- The names of the common directory begin those of the source's.
  have hcommon := fun name hname => hstep name (hbegins.subset hname)
  rcases Path.names_commonDirectory base _ hbase hcommon with ⟨habsolute, hnames⟩
  have haddress := Path.address_commonDirectory cwd base _ hbase hcommon
  rcases hbegins with ⟨below, hbelow⟩
  refine ⟨base, below, rfl, habsolute, haddress.trans hnames.symm, ?_, ?_⟩
  · intro name hname
    exact hstep name (by rw [← hbelow]; exact List.mem_append_right _ hname)
  · rw [← hbelow, hnames]

/-- The directory of a plan is the output directory, followed by the names of the
    directory of its source below the common one. -/
theorem directory_of_below (source base : Path) (below : List Name)
    (hcwd : Path.isAbsolute cwd = true) (hdir : outputDir ≠ []) (hsource : Path.IsFilePath source)
    (hbase : Path.isAbsolute base = true)
    (hbelow : Path.address cwd (Path.directory source) = Path.address cwd base ++ below) :
    directory cwd outputDir (some base) source =
      Path.join outputDir (Path.ofSegments below) := by
  have hne : base ≠ [] := by
    rintro rfl
    exact absurd hbase (by decide)
  unfold directory
  simp only [if_neg hdir, if_neg hne]
  rw [Path.directory_relative cwd source base below hcwd hsource.name hbelow]

/-- A service whose name is that of a file is written under this name. -/
theorem address_pathOf (base : Option Path) (p : PlannedService)
    (hname : Path.IsStep p.name.toList) :
    Path.address cwd (pathOf cwd outputDir base p) =
      Path.address cwd (directory cwd outputDir base p.source) ++ [p.name.toList] :=
  Path.address_join_ofSegments cwd _ [p.name.toList] (List.forall_mem_singleton.2 hname)

/-- The directories of two plans have one address if those of their sources do. -/
theorem address_directory_eq_iff (outputDir source source' : Path)
    (hcwd : Path.isAbsolute cwd = true) (hmem : source ∈ sources) (hmem' : source' ∈ sources)
    (hfile : Path.IsFilePath source) (hfile' : Path.IsFilePath source') :
    Path.address cwd (directory cwd outputDir (commonBase cwd sources) source) =
        Path.address cwd (directory cwd outputDir (commonBase cwd sources) source') ↔
      Path.address cwd (Path.directory source) = Path.address cwd (Path.directory source') := by
  by_cases hdir : outputDir = []
  · simp only [directory, if_pos hdir]
  · rcases exists_below source hcwd hmem with ⟨base, below, hbase, habsolute, hnames, hstep, hbelow⟩
    rcases exists_below source' hcwd hmem' with ⟨base', below', hbase', -, -, hstep', hbelow'⟩
    rw [hbase, Option.some.injEq] at hbase'
    subst hbase'
    -- On either side the names below the common directory make the difference.
    rw [hbelow, hbelow', hbase]
    rw [← hnames] at hbelow hbelow'
    rw [directory_of_below source base below hcwd hdir hfile habsolute hbelow,
      directory_of_below source' base below' hcwd hdir hfile' habsolute hbelow',
      Path.address_join_ofSegments cwd _ below hstep,
      Path.address_join_ofSegments cwd _ below' hstep', List.append_cancel_left_eq,
      List.append_cancel_left_eq]

/-- Below an output directory, two plans of sources in one directory are written to one
    directory. -/
theorem directory_eq_of_address (source source' : Path) (hcwd : Path.isAbsolute cwd = true)
    (hdir : outputDir ≠ []) (hmem : source ∈ sources) (hfile : Path.IsFilePath source)
    (hfile' : Path.IsFilePath source')
    (h : Path.address cwd (Path.directory source) = Path.address cwd (Path.directory source')) :
    directory cwd outputDir (commonBase cwd sources) source =
      directory cwd outputDir (commonBase cwd sources) source' := by
  rcases exists_below source hcwd hmem with ⟨base, below, hbase, habsolute, hnames, -, hbelow⟩
  rw [← hnames] at hbelow
  rw [hbase, directory_of_below source base below hcwd hdir hfile habsolute hbelow,
    directory_of_below source' base below hcwd hdir hfile' habsolute (h ▸ hbelow)]

/-- Beside its source a plan has a path that starts with one slash. -/
theorem rootSlashes_pathOf (base : Option Path) (p : PlannedService)
    (hfile : Path.IsFilePath p.source) (hname : Path.IsStep p.name.toList) :
    Path.rootSlashes (Path.join cwd (pathOf cwd [] base p)) = ['/'] := by
  have hrelative := Path.isAbsolute_of_no_slash _ hname.2.2.2
  have hpath : pathOf cwd [] base p = Path.join (Path.directory p.source) p.name.toList := by
    simp only [pathOf, directory, if_true]
  rw [hpath, Path.join_of_isAbsolute cwd _ (Path.isAbsolute_join _ _ hfile.directory.1),
    Path.rootSlashes_join _ _ hfile.directory.1 hrelative, hfile.directory.2]

/-- Two services have one plan file exactly if they have one name and their definition
    files are in one directory. -/
theorem keyOf_eq_iff (p q : PlannedService) (hcwd : Path.isAbsolute cwd = true)
    (hsources : ∀ source ∈ sources, Path.IsFilePath source)
    (hp : p.source ∈ sources ∧ Path.IsStep p.name.toList)
    (hq : q.source ∈ sources ∧ Path.IsStep q.name.toList) :
    keyOf cwd outputDir (commonBase cwd sources) p =
        keyOf cwd outputDir (commonBase cwd sources) q ↔
      p.name = q.name ∧
        Path.normalize (Path.directory p.source) = Path.normalize (Path.directory q.source) := by
  have hfile := hsources p.source hp.1
  have hfile' := hsources q.source hq.1
  rw [keyOf, keyOf, key_eq_iff cwd _ _ hcwd, address_pathOf _ p hp.2, address_pathOf _ q hq.2,
    Path.normalize_directory_eq_iff cwd _ _ hcwd hfile hfile',
    ← address_directory_eq_iff outputDir p.source q.source hcwd hp.1 hq.1 hfile
      hfile']
  constructor
  · rintro ⟨-, haddress⟩
    -- The last names are equal and so is what is in front of them.
    rcases List.append_inj' haddress rfl with ⟨hdirectory, hname⟩
    exact ⟨String.toList_injective (List.cons.inj hname).1, hdirectory⟩
  · rintro ⟨hname, hdirectory⟩
    refine ⟨?_, by rw [hdirectory, hname]⟩
    by_cases hdir : outputDir = []
    · rw [hdir, rootSlashes_pathOf _ p hfile hp.2, rootSlashes_pathOf _ q hfile' hq.2]
    · -- The two paths are spelled alike.
      rw [address_directory_eq_iff outputDir p.source q.source hcwd hp.1 hq.1 hfile hfile']
        at hdirectory
      rw [pathOf, pathOf, hname,
        directory_eq_of_address p.source q.source hcwd hdir hp.1 hfile hfile' hdirectory]

/-- A service is reported exactly if one in front of it has its name and comes from its
    directory, with or without an output directory. Below an output directory, the plans
    of a file are in the directory that is spelled by the names of the file's own below
    the common one, none of which goes up. -/
theorem collisions_mirror_sources (cwd outputDir : Path) (sources : List Path)
    (planned : List PlannedService) (hcwd : Path.isAbsolute cwd = true)
    (hsources : ∀ source ∈ sources, Path.IsFilePath source)
    (hplanned : ∀ p ∈ planned, p.source ∈ sources ∧ Path.IsStep p.name.toList) :
    (∀ (j : Nat) (p : PlannedService), planned[j]? = some p →
      ((∃ c, (assign cwd outputDir (commonBase cwd sources) planned)[j]? = some (.collision c)) ↔
        ∃ (i : Nat) (q : PlannedService), i < j ∧ planned[i]? = some q ∧ q.name = p.name ∧
          Path.normalize (Path.directory q.source) =
            Path.normalize (Path.directory p.source))) ∧
      (outputDir ≠ [] → ∀ source ∈ sources, ∃ base below,
        commonBase cwd sources = some base ∧
          Path.names (Path.normalize (Path.directory source)) = Path.names base ++ below ∧
          (∀ name ∈ below, Path.IsStep name) ∧
          directory cwd outputDir (some base) source =
            Path.join outputDir (Path.ofSegments below)) := by
  refine ⟨?_, ?_⟩
  · intro j p hp
    rw [exists_collision_iff planned j p hp]
    refine exists_congr fun i => exists_congr fun q => and_congr_right fun _ =>
      and_congr_right fun hq => ?_
    exact keyOf_eq_iff q p hcwd hsources (hplanned q (List.mem_of_getElem? hq))
      (hplanned p (List.mem_of_getElem? hp))
  · intro hdir source hmem
    have hfile := hsources source hmem
    rcases exists_below source hcwd hmem with
      ⟨base, below, hbase, habsolute, hnames, hstep, hbelow⟩
    -- The names of the normal spelling are those of the address.
    have hnormal := Path.names_absolute cwd (Path.directory source) hcwd
    rw [Path.absolute, Path.join_of_isAbsolute cwd _ hfile.directory.1, hbelow] at hnormal
    refine ⟨base, below, hbase, hnormal, hstep, ?_⟩
    exact directory_of_below source base below hcwd hdir hfile habsolute (hnames ▸ hbelow)

/-- Three definition files in two directories. -/
def twoDirectories : List Path :=
  ["/w/shop/a.conjure.json".toList, "/w/./shop/b.conjure.json".toList,
    "/w/depot/a.conjure.json".toList]

theorem collisions_mirror_twoDirectories :
    (∃ c, (assign "/w".toList "plans".toList (commonBase "/w".toList twoDirectories)
        (twoDirectories.map store))[1]? = some (.collision c)) ∧
      ¬(∃ c, (assign "/w".toList "plans".toList (commonBase "/w".toList twoDirectories)
        (twoDirectories.map store))[2]? = some (.collision c)) ∧
      ∃ base below, commonBase "/w".toList twoDirectories = some base ∧
        Path.names (Path.normalize "/w/depot".toList) = Path.names base ++ below ∧
        (∀ name ∈ below, Path.IsStep name) ∧
        directory "/w".toList "plans".toList (some base) "/w/depot/a.conjure.json".toList =
          Path.join "plans".toList (Path.ofSegments below) := by
  have hsources : ∀ source ∈ twoDirectories, Path.IsFilePath source := by
    have hfile : ∀ source ∈ twoDirectories, Path.isAbsolute source = true ∧
        Path.rootSlashes source ≠ ['/', '/'] ∧ Path.lastName source ≠ [] ∧
        Path.lastName source ≠ Path.here ∧ Path.lastName source ≠ Path.up ∧
        '/' ∉ Path.lastName source := by decide
    intro source hsource
    rcases hfile source hsource with ⟨habsolute, hslashes, hname⟩
    exact ⟨habsolute, hslashes, hname⟩
  have hplanned : ∀ p ∈ twoDirectories.map store,
      p.source ∈ twoDirectories ∧ Path.IsStep p.name.toList := by
    unfold Path.IsStep
    decide
  rcases collisions_mirror_sources "/w".toList "plans".toList twoDirectories
    (twoDirectories.map store) (by decide) hsources hplanned with ⟨hcollisions, hdirectories⟩
  refine ⟨(hcollisions 1 _ rfl).2 ⟨0, _, by decide, rfl, by decide, by decide⟩, ?_, ?_⟩
  · intro hcollision
    rcases (hcollisions 2 _ rfl).1 hcollision with ⟨i, q, hi, hq, -, hsame⟩
    -- The only files in front of the last one are in another directory.
    rcases (by omega : i = 0 ∨ i = 1) with rfl | rfl
    · cases hq
      exact absurd hsame (by decide)
    · cases hq
      exact absurd hsame (by decide)
  · exact hdirectories (by decide) "/w/depot/a.conjure.json".toList (by decide)

end Output

end ClientPlan
