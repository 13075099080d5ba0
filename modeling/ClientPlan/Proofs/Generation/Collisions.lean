import ClientPlan.Proofs.Generation.Files
import ClientPlan.Proofs.Path.Roots

/-!
# Reported Collisions

When a service that is reported as colliding would have been written to the file of
another one.

Services are compared by the normal spelling of their paths, to which the ending of a
plan file is put only afterwards. The spelling of a path that ends in a name ends in that
name, so two such paths with one spelling are the paths of one file. A name can also end
in a slash, or go up at its end. Its path is then spelled like that of another directory,
while its file has a name of its own: `/w/Store/` is spelled `/w/Store`, and its file is
`/w/Store/.plan.json`. So a service can be reported, and not written, although nothing
else is written to its file.

## Theorems

* `exists_collision_iff`: The positions at which a service is reported.
* `key_eq_iff`: Paths with one key.
* `key_file_eq_iff`: Two paths with one key are those of one file.
* `file_of_collision_iff`: What is said of a reported service is true.
* `exists_collision_apart`: There are services that are reported and have files of their
  own.
-/

namespace ClientPlan

namespace Output

section Positions

variable {cwd outputDir : Path} {base : Option Path}

/-- A file has a keeper exactly if some service has it. -/
theorem exists_keeper?_iff (cwd outputDir : Path) (base : Option Path)
    (before : List PlannedService) (file : Path) :
    (∃ earlier, keeper? cwd outputDir base before file = some earlier) ↔
      ∃ q ∈ before, keyOf cwd outputDir base q = file := by
  rw [← Option.isSome_iff_exists, keeper?, List.find?_isSome]
  simp only [decide_eq_true_eq]

/-- What is reported of the service at a position. -/
theorem getElem?_assign_eq_collision_iff (planned : List PlannedService) (j : Nat)
    (c : Collision) :
    (assign cwd outputDir base planned)[j]? = some (.collision c) ↔
      planned[j]? = some c.planned ∧ c.path = pathOf cwd outputDir base c.planned ∧
        keeper? cwd outputDir base (planned.take j) (keyOf cwd outputDir base c.planned) =
          some c.earlier := by
  -- Each service is judged by those in front of it alone.
  rw [assign_eq_mapIdx, List.getElem?_mapIdx, Option.map_eq_some_iff]
  constructor
  · rintro ⟨p, hp, hassignment⟩
    unfold assignment at hassignment
    split at hassignment
    · rename_i earlier hkeeper
      cases hassignment
      exact ⟨hp, rfl, hkeeper⟩
    · cases hassignment
  · rintro ⟨hp, hpath, hkeeper⟩
    refine ⟨c.planned, hp, ?_⟩
    simp only [assignment, hkeeper, ← hpath]

/-- A service is reported exactly if one in front of it has the same key. -/
theorem exists_collision_iff (planned : List PlannedService) (j : Nat) (p : PlannedService)
    (hp : planned[j]? = some p) :
    (∃ c, (assign cwd outputDir base planned)[j]? = some (.collision c)) ↔
      ∃ i q, i < j ∧ planned[i]? = some q ∧
        keyOf cwd outputDir base q = keyOf cwd outputDir base p := by
  have hkeeper := exists_keeper?_iff cwd outputDir base (planned.take j)
    (keyOf cwd outputDir base p)
  -- Those in front of a position are those at smaller ones.
  have hbefore (q : PlannedService) : q ∈ planned.take j ↔ ∃ i, i < j ∧ planned[i]? = some q := by
    simp only [List.mem_iff_getElem?, List.getElem?_take, Option.ite_none_right_eq_some]
  simp only [getElem?_assign_eq_collision_iff, hp, Option.some.injEq]
  constructor
  · rintro ⟨c, rfl, -, hearlier⟩
    rcases hkeeper.1 ⟨_, hearlier⟩ with ⟨q, hq, hkey⟩
    rcases (hbefore q).1 hq with ⟨i, hi, hq⟩
    exact ⟨i, q, hi, hq, hkey⟩
  · rintro ⟨i, q, hi, hq, hkey⟩
    rcases hkeeper.2 ⟨q, (hbefore q).2 ⟨i, hi, hq⟩, hkey⟩ with ⟨earlier, hearlier⟩
    exact ⟨⟨p, pathOf cwd outputDir base p, earlier⟩, rfl, rfl, hearlier⟩

end Positions

/-- A key is the normal spelling of its path. -/
theorem key_eq_absolute (cwd p : Path) (hcwd : Path.isAbsolute cwd = true) :
    key cwd p = Path.absolute cwd p := by
  have habsolute := Path.absolute_absolute cwd p hcwd
  rwa [Path.absolute, Path.join_of_isAbsolute cwd _ (Path.isAbsolute_absolute cwd p hcwd)]
    at habsolute

/-- Two paths have one key if they start alike and lead to one address. -/
theorem key_eq_iff (cwd p q : Path) (hcwd : Path.isAbsolute cwd = true) :
    key cwd p = key cwd q ↔
      Path.rootSlashes (Path.join cwd p) = Path.rootSlashes (Path.join cwd q) ∧
        Path.address cwd p = Path.address cwd q := by
  rw [key_eq_absolute cwd p hcwd, key_eq_absolute cwd q hcwd, Path.absolute_eq_iff cwd p q hcwd]

/-- A path takes its ending along wherever it is seen from. -/
theorem join_append_ending (cwd p : Path) :
    Path.join cwd (p ++ ending) = Path.join cwd p ++ ending := by
  by_cases hp : Path.isAbsolute p = true
  · have hne : p ≠ [] := by
      rintro rfl
      exact absurd hp (by decide)
    rw [Path.join_of_isAbsolute cwd p hp, Path.join_of_isAbsolute]
    rw [Path.isAbsolute_append p ending hne, hp]
  · rw [Path.join_append cwd p ending (Bool.eq_false_iff.2 hp) (by decide)]

theorem key_append_ending_eq_iff (cwd p q : Path) (hcwd : Path.isAbsolute cwd = true) :
    key cwd (p ++ ending) = key cwd (q ++ ending) ↔
      Path.rootSlashes (Path.join cwd p) = Path.rootSlashes (Path.join cwd q) ∧
        Path.address cwd (Path.directory p) = Path.address cwd (Path.directory q) ∧
        Path.lastName p = Path.lastName q := by
  have hslashes : ∀ r, Path.rootSlashes (Path.join cwd r ++ ending) =
      Path.rootSlashes (Path.join cwd r) := fun r =>
    Path.rootSlashes_append _ ending (Or.inl (by decide))
  -- The ending goes to the last name, and leaves the slashes in front and the directory alone.
  rw [key_eq_iff cwd _ _ hcwd, join_append_ending, join_append_ending, hslashes, hslashes,
    address_append_ending, address_append_ending]
  refine and_congr_right fun _ => ?_
  constructor
  · intro h
    rcases List.append_inj' h rfl with ⟨hdirectory, hlast⟩
    exact ⟨hdirectory, List.append_cancel_right (List.cons.inj hlast).1⟩
  · rintro ⟨hdirectory, hlast⟩
    rw [hdirectory, hlast]

/-- A name leads to one place from one directory only, unless it goes up. -/
theorem further_inj (a b : Address) (name : Name) (hup : name ≠ Path.up)
    (h : Path.further a name = Path.further b name) : a = b := by
  unfold Path.further at h
  split at h
  · exact h
  · exact List.append_cancel_right h

/-- Two paths with one key are those of one file exactly if they end in the same name,
    and if that goes up, from the same directory. -/
theorem key_file_eq_iff (cwd p q : Path) (hcwd : Path.isAbsolute cwd = true)
    (hkey : key cwd p = key cwd q) :
    key cwd (p ++ ending) = key cwd (q ++ ending) ↔
      Path.lastName p = Path.lastName q ∧
        (Path.lastName p = Path.up →
          Path.address cwd (Path.directory p) = Path.address cwd (Path.directory q)) := by
  rw [key_eq_iff cwd p q hcwd] at hkey
  rw [key_append_ending_eq_iff cwd p q hcwd]
  constructor
  · rintro ⟨-, hdirectory, hlast⟩
    exact ⟨hlast, fun _ => hdirectory⟩
  · rintro ⟨hlast, hup⟩
    refine ⟨hkey.1, ?_, hlast⟩
    by_cases hname : Path.lastName p = Path.up
    · exact hup hname
    · refine further_inj _ _ (Path.lastName p) hname ?_
      rw [← Path.address_eq_directory, hlast, ← Path.address_eq_directory, hkey.2]

/-- Paths that end in names that lead down have one key only if they end in one name. -/
theorem lastName_eq_of_key (cwd p q : Path) (hcwd : Path.isAbsolute cwd = true)
    (hkey : key cwd p = key cwd q) (hp : Path.IsStep (Path.lastName p))
    (hq : Path.IsStep (Path.lastName q)) : Path.lastName p = Path.lastName q := by
  have haddress := ((key_eq_iff cwd p q hcwd).1 hkey).2
  rw [Path.address_of_isStep cwd p hp, Path.address_of_isStep cwd q hq] at haddress
  exact (List.cons.inj (List.append_inj' haddress rfl).2).1

/-- A service that is reported has the key of one in front of it. Both have the same file
    exactly if their names end alike, and if they end by going up, in the same directory.
    They do so if the ends of both are names of files. -/
theorem file_of_collision_iff (cwd outputDir : Path) (base : Option Path)
    (planned : List PlannedService) (hcwd : Path.isAbsolute cwd = true) (c : Collision)
    (hc : c ∈ collisions (assign cwd outputDir base planned)) :
    (∃ i j : Nat, i < j ∧ planned[i]? = some c.earlier ∧ planned[j]? = some c.planned ∧
        c.path = pathOf cwd outputDir base c.planned) ∧
      (key cwd (c.path ++ ending) = key cwd (pathOf cwd outputDir base c.earlier ++ ending) ↔
        Path.lastName c.planned.name.toList = Path.lastName c.earlier.name.toList ∧
          (Path.lastName c.planned.name.toList = Path.up →
            Path.address cwd (Path.directory c.path) =
              Path.address cwd (Path.directory (pathOf cwd outputDir base c.earlier)))) ∧
      (Path.IsStep (Path.lastName c.planned.name.toList) →
        Path.IsStep (Path.lastName c.earlier.name.toList) →
          key cwd (c.path ++ ending) =
            key cwd (pathOf cwd outputDir base c.earlier ++ ending)) := by
  rw [collisions_eq_filterMap, List.mem_filterMap] at hc
  rcases hc with ⟨_ | other, hmem, hother⟩
  · cases hother
  cases hother
  rcases List.mem_iff_getElem?.1 hmem with ⟨j, hj⟩
  rcases (getElem?_assign_eq_collision_iff planned j c).1 hj with ⟨hplanned, hpath, hkeeper⟩
  have hmem := List.mem_of_find?_eq_some hkeeper
  have hkey := List.find?_some hkeeper
  rcases List.mem_take_iff_getElem.1 hmem with ⟨i, hi, hearlier⟩
  rw [decide_eq_true_eq, keyOf, keyOf, ← hpath] at hkey
  -- The paths end like the names of the services.
  have hlast : Path.lastName c.path = Path.lastName c.planned.name.toList := by
    rw [hpath]
    exact Path.lastName_join _ _
  have hlast' : Path.lastName (pathOf cwd outputDir base c.earlier) =
      Path.lastName c.earlier.name.toList := Path.lastName_join _ _
  have hfile := key_file_eq_iff cwd _ _ hcwd hkey.symm
  have hsame := lastName_eq_of_key cwd _ _ hcwd hkey.symm
  rw [hlast, hlast'] at hfile hsame
  refine ⟨⟨i, j, by omega, ?_, hplanned, hpath⟩, hfile, ?_⟩
  · exact List.getElem?_eq_some_iff.2 ⟨by omega, hearlier⟩
  · intro hstep hstep'
    refine hfile.2 ⟨hsame hstep hstep', ?_⟩
    intro hup
    exact absurd hup hstep.2.2.1

/-- A service without endpoints, from one definition file. -/
def named (name : String) : PlannedService :=
  ⟨"/w/a.conjure.json".toList, ⟨⟨name, none, []⟩, []⟩⟩

/-- Two spellings of one name. -/
def respelled : List PlannedService :=
  [named "Store", named "./Store"]

theorem file_of_respelled_collision :
    ⟨named "./Store", "/w/./Store".toList, named "Store"⟩ ∈
        collisions (assign "/w".toList [] none respelled) ∧
      Path.IsStep "Store".toList ∧
      key "/w".toList "/w/./Store.plan.json".toList = key "/w".toList "/w/Store.plan.json".toList :=
  have hc : ⟨named "./Store", "/w/./Store".toList, named "Store"⟩ ∈
      collisions (assign "/w".toList [] none respelled) := by decide
  have hstep : Path.IsStep "Store".toList := by unfold Path.IsStep; decide
  ⟨hc, hstep,
    (file_of_collision_iff "/w".toList [] none respelled (by decide) _ hc).2.2 hstep hstep⟩

/-- Two names with one normal spelling, only one of which ends in the name of a file. -/
def slashed : List PlannedService :=
  [named "Store", named "Store/"]

/-- A service can be reported as colliding though its file is not that of the other
    service. -/
theorem exists_collision_apart :
    ¬ ∀ (cwd outputDir : Path) (base : Option Path) (planned : List PlannedService),
      Path.isAbsolute cwd = true →
        ∀ c ∈ collisions (assign cwd outputDir base planned),
          key cwd (c.path ++ ending) = key cwd (pathOf cwd outputDir base c.earlier ++ ending) := by
  intro h
  have hfiles := h "/w".toList [] none slashed (by decide)
    ⟨named "Store/", "/w/Store/".toList, named "Store"⟩ (by decide)
  exact absurd hfiles (by decide)

end Output

end ClientPlan
