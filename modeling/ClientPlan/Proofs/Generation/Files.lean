import ClientPlan.Proofs.Generation.Assignment
import ClientPlan.Proofs.Path.Address

/-!
# Plan Files at One Address

Which outputs are written to one file.

The key by which outputs are compared is the normal spelling of their paths, without
the ending that a plan file has. The ending belongs to the last name, and a name with
that ending leads down whatever it is, so files at one address have paths at one
address. Normal spellings of such paths differ in nothing but the slashes at their
beginning: `//w/Store` is kept apart from `/w/Store`, since two slashes may mean
something else than one. Here they do not, and the later of two such plans takes the
place of the earlier one.

## Theorems

* `address_file`: A plan file stands in the directory of its path.
* `address_path_of_file`: Files at one address have paths at one address.
* `rootSlashes_of_same_file`: Outputs that share a file differ in their first slashes.
* `exists_outputs_same_file`: There are outputs that share a file.
-/

namespace ClientPlan

namespace Output

/-- A name with the ending of a plan file is not one of the short ones that lead
    nowhere or up. -/
theorem append_ending_ne (name short : Name) (h : short.length < 10) : name ++ ending ≠ short := by
  rintro rfl
  have hlength : ending.length = 10 := by decide
  rw [List.length_append, hlength] at h
  omega

/-- A name with the ending of a plan file leads down, whatever the name is. -/
theorem further_ending (a : Address) (name : Name) :
    Path.further a (name ++ ending) = a ++ [name ++ ending] := by
  rw [Path.further, if_neg (not_or.2 ⟨append_ending_ne name [] (by decide),
    append_ending_ne name Path.here (by decide)⟩), if_neg (append_ending_ne name Path.up (by decide))]

theorem lastName_file (o : Output) : Path.lastName o.file = Path.lastName o.path ++ ending :=
  Path.lastName_append o.path ending (by decide)

theorem directory_file (o : Output) : Path.directory o.file = Path.directory o.path :=
  Path.directory_append o.path ending (by decide)

theorem lastName_file_ne_nil (o : Output) : Path.lastName o.file ≠ [] := by
  rw [lastName_file]
  exact append_ending_ne _ [] (by decide)

theorem lastName_file_not_moves (o : Output) :
    ¬(Path.lastName o.file = Path.here ∨ Path.lastName o.file = Path.up) := by
  rw [lastName_file, not_or]
  exact ⟨append_ending_ne _ Path.here (by decide), append_ending_ne _ Path.up (by decide)⟩

/-- With the ending of a plan file a path stands in its directory, whatever its last name
    is. -/
theorem address_append_ending (cwd p : Path) :
    Path.address cwd (p ++ ending) =
      Path.address cwd (Path.directory p) ++ [Path.lastName p ++ ending] := by
  have hslash : '/' ∉ ending := by decide
  rw [Path.address_eq_directory, Path.directory_append p ending hslash,
    Path.lastName_append p ending hslash, further_ending]

/-- A plan file stands in the directory of its path, under the last name. -/
theorem address_file (cwd : Path) (o : Output) :
    Path.address cwd o.file =
      Path.address cwd (Path.directory o.path) ++ [Path.lastName o.path ++ ending] :=
  address_append_ending cwd o.path

theorem address_path_of_file (cwd : Path) (o o' : Output)
    (h : Path.address cwd o.file = Path.address cwd o'.file) :
    Path.address cwd o.path = Path.address cwd o'.path := by
  rw [address_file, address_file] at h
  -- The ending is that of both files, and what stands in front of it is left.
  rcases List.append_inj' h rfl with ⟨hdirectory, hname⟩
  have hlast : Path.lastName o.path = Path.lastName o'.path :=
    List.append_cancel_right (List.cons.inj hname).1
  rw [Path.address_eq_directory, Path.address_eq_directory cwd o'.path, hdirectory, hlast]

/-- Two outputs with different paths share a file only if exactly one of their paths
    begins with two slashes, as seen from the root. -/
theorem rootSlashes_of_same_file (cwd outputDir : Path) (base : Option Path)
    (planned : List PlannedService) (hcwd : Path.isAbsolute cwd = true) (o o' : Output)
    (ho : o ∈ outputs (assign cwd outputDir base planned))
    (ho' : o' ∈ outputs (assign cwd outputDir base planned)) (hne : o.path ≠ o'.path)
    (h : Path.address cwd o.file = Path.address cwd o'.file) :
    (Path.rootSlashes (Path.join cwd o.path) = ['/', '/'] ∧
        Path.rootSlashes (Path.join cwd o'.path) = ['/']) ∨
      (Path.rootSlashes (Path.join cwd o.path) = ['/'] ∧
        Path.rootSlashes (Path.join cwd o'.path) = ['/', '/']) := by
  have haddress := address_path_of_file cwd o o' h
  -- With the same slashes the outputs would have the same key.
  have hslashes : Path.rootSlashes (Path.join cwd o.path) ≠
      Path.rootSlashes (Path.join cwd o'.path) := by
    intro hsame
    have hkey : key cwd o.path = key cwd o'.path := by
      rw [key, key, Path.absolute_eq_of_address cwd o.path o'.path hcwd haddress hsame]
    have heq := List.inj_on_of_nodup_map (keys_outputs_nodup cwd outputDir base planned) ho ho' hkey
    exact hne (congrArg Output.path heq)
  -- An absolute path starts with one slash or with two, and these start differently.
  rcases Path.rootSlashes_cases _ (Path.isAbsolute_join cwd o.path hcwd) with hone | htwo
  · rcases Path.rootSlashes_cases _ (Path.isAbsolute_join cwd o'.path hcwd) with hone' | htwo'
    · exact absurd (hone.trans hone'.symm) hslashes
    · exact Or.inr ⟨hone, htwo'⟩
  · rcases Path.rootSlashes_cases _ (Path.isAbsolute_join cwd o'.path hcwd) with hone' | htwo'
    · exact Or.inl ⟨htwo, hone'⟩
    · exact absurd (htwo.trans htwo'.symm) hslashes

/-- A service without endpoints, from the given definition file. -/
def store (source : Path) : PlannedService :=
  ⟨source, ⟨⟨"Store", none, []⟩, []⟩⟩

/-- Two services of one name, from definition files in one directory that is spelled
    with two slashes and with one. -/
def twoSpellings : List PlannedService :=
  [store "//w/a.conjure.json".toList, store "/w/b.conjure.json".toList]

theorem rootSlashes_of_twoSpellings :
    (Path.rootSlashes (Path.join "/w".toList "//w/Store".toList) = ['/', '/'] ∧
        Path.rootSlashes (Path.join "/w".toList "/w/Store".toList) = ['/']) ∨
      (Path.rootSlashes (Path.join "/w".toList "//w/Store".toList) = ['/'] ∧
        Path.rootSlashes (Path.join "/w".toList "/w/Store".toList) = ['/', '/']) :=
  rootSlashes_of_same_file "/w".toList [] none twoSpellings (by decide)
    ⟨"//w/Store".toList, store "//w/a.conjure.json".toList⟩
    ⟨"/w/Store".toList, store "/w/b.conjure.json".toList⟩
    (by decide) (by decide) (by decide) (by decide)

/-- There are outputs with different paths that share a file, so one plan takes the
    place of another one. -/
theorem exists_outputs_same_file :
    ¬ ∀ (cwd outputDir : Path) (base : Option Path) (planned : List PlannedService),
      Path.isAbsolute cwd = true →
        ∀ o ∈ outputs (assign cwd outputDir base planned),
          ∀ o' ∈ outputs (assign cwd outputDir base planned),
            o.path ≠ o'.path → Path.address cwd o.file ≠ Path.address cwd o'.file := by
  intro h
  have hfiles := h "/w".toList [] none twoSpellings (by decide)
    ⟨"//w/Store".toList, store "//w/a.conjure.json".toList⟩ (by decide)
    ⟨"/w/Store".toList, store "/w/b.conjure.json".toList⟩ (by decide) (by decide)
  exact hfiles (by decide)

end Output

end ClientPlan
