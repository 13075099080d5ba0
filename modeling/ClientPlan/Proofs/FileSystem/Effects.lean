import ClientPlan.Proofs.FileSystem.Ways

/-!
# Effects of File Operations

What each operation leaves behind, address by address.

Writing and removing a file each change the entry at one address, and a success
says what stood there before. Making a directory together with those above it may
change several, and may fail in the middle; whatever it did until then, it has
only put directories where nothing stood, and only on the way of its path. That
is `AddsOnWay`, a relation that composes, so the recursion over the directories
above needs no more than one step of it.

## Main definitions

* `AddsOnWay`: New directories on the way of a path, and nothing else.
* `LacksAbove`: Whether the directory above a path has to be made first.

## Theorems

* `write_eq_ok`, `remove_eq_ok`, `makeDirectory_eq_ok`: One operation that
  succeeds.
* `addsOnWay_trans`: Additions on two ways, one part of the other.
* `makeDirectories_cases`: One step of making directories.
* `makeDirectories_addsOnWay`: Directories are all that is made, and only on the
  way.
-/

namespace ClientPlan

namespace FileSystem

theorem ne_nil_of_target (fs : FileSystem) (cwd p : Path) (parent : Address) (name : Name)
    (slash : Bool) (h : fs.target cwd p = .ok ⟨parent, some name, slash⟩) :
    Path.address cwd p ≠ [] := by
  rw [← (target_eq_ok fs cwd p parent name slash h).1]
  exact List.append_ne_nil_of_right_ne_nil parent (List.cons_ne_nil name [])

theorem write_eq_ok (fs fs' : FileSystem) (cwd p : Path) (content : List UInt8)
    (h : fs.write cwd p content = .ok fs') :
    Path.address cwd p ≠ [] ∧ fs' = fs.set (Path.address cwd p) (.file content) ∧
      fs.at? (Path.address cwd p) ≠ some .directory ∧
      ∀ b ∈ Path.above cwd p, fs.at? b = some .directory := by
  unfold write at h
  split at h
  · cases h
  rcases htarget : fs.target cwd p with reason | ⟨parent, _ | name, slash⟩
  · simp only [htarget, reduceCtorEq] at h
  · simp only [htarget, reduceCtorEq] at h
  cases slash with
  | true => simp only [htarget, reduceCtorEq] at h
  | false =>
      rcases target_eq_ok fs cwd p parent name false htarget with ⟨haddress, habove⟩
      -- What is left to look at is the entry at the address itself.
      simp only [htarget, haddress] at h
      split at h
      · cases h
      split at h
      · cases h
      · rename_i hfree
        cases h
        exact ⟨ne_nil_of_target fs cwd p parent name false htarget, rfl, hfree, habove⟩

theorem remove_eq_ok (fs fs' : FileSystem) (cwd p : Path) (h : fs.remove cwd p = .ok fs') :
    Path.address cwd p ≠ [] ∧ fs' = fs.erase (Path.address cwd p) ∧
      ∃ content, fs.at? (Path.address cwd p) = some (.file content) := by
  -- Each test that the removal makes has been passed.
  unfold remove at h
  split at h
  · cases h
  rcases htarget : fs.target cwd p with reason | ⟨parent, _ | name, slash⟩
  · simp only [htarget, reduceCtorEq] at h
  · simp only [htarget, reduceCtorEq] at h
  rcases target_eq_ok fs cwd p parent name slash htarget with ⟨haddress, -⟩
  simp only [htarget, haddress] at h
  split at h
  · cases h
  rcases hentry : fs.at? (Path.address cwd p) with _ | _ | content
  · simp only [hentry, reduceCtorEq] at h
  · simp only [hentry, reduceCtorEq] at h
  · simp only [hentry] at h
    split at h
    · cases h
    · cases h
      exact ⟨ne_nil_of_target fs cwd p parent name slash htarget, rfl, content, rfl⟩

theorem makeDirectory_eq_ok (fs fs' : FileSystem) (cwd p : Path)
    (h : fs.makeDirectory cwd p = .ok fs') :
    Path.address cwd p ≠ [] ∧ fs' = fs.set (Path.address cwd p) .directory ∧
      fs.at? (Path.address cwd p) = none := by
  unfold makeDirectory at h
  split at h
  · cases h
  rcases htarget : fs.target cwd p with reason | ⟨parent, _ | name, slash⟩
  · simp only [htarget, reduceCtorEq] at h
  · simp only [htarget, reduceCtorEq] at h
  rcases target_eq_ok fs cwd p parent name slash htarget with ⟨haddress, -⟩
  simp only [htarget, haddress] at h
  split at h
  · cases h
  split at h
  · cases h
  · -- The last test: nothing stands at the address yet.
    rename_i hfree
    cases h
    refine ⟨ne_nil_of_target fs cwd p parent name slash htarget, rfl, ?_⟩
    rwa [Bool.not_eq_true, Option.isSome_eq_false_iff, Option.isNone_iff_eq_none] at hfree

/-- The second file system is the first one with new directories on the way of a
    path. -/
def AddsOnWay (cwd p : Path) (fs fs' : FileSystem) : Prop :=
  ∀ b, fs'.at? b = fs.at? b ∨
    (b ∈ Path.way cwd p ∧ fs.at? b = none ∧ fs'.at? b = some .directory)

theorem addsOnWay_refl (cwd p : Path) (fs : FileSystem) : AddsOnWay cwd p fs fs :=
  fun _ => Or.inl rfl

theorem addsOnWay_trans (cwd p q : Path) (fs fs' fs'' : FileSystem)
    (hway : ∀ b ∈ Path.way cwd p, b ∈ Path.way cwd q) (h : AddsOnWay cwd p fs fs')
    (h' : AddsOnWay cwd q fs' fs'') : AddsOnWay cwd q fs fs'' := by
  intro b
  rcases h b with hsame | ⟨hb, hnone, hdirectory⟩
  · rcases h' b with hsame' | ⟨hb, hnone, hdirectory⟩
    · exact Or.inl (hsame'.trans hsame)
    · exact Or.inr ⟨hb, hsame ▸ hnone, hdirectory⟩
  · rcases h' b with hsame' | ⟨_, hnone', _⟩
    · exact Or.inr ⟨hway b hb, hnone, hsame'.trans hdirectory⟩
    · -- A directory that was added first is there already.
      rw [hdirectory] at hnone'
      cases hnone'

theorem makeDirectory_addsOnWay (fs fs' : FileSystem) (cwd p : Path)
    (h : fs.makeDirectory cwd p = .ok fs') : AddsOnWay cwd p fs fs' := by
  rcases makeDirectory_eq_ok fs fs' cwd p h with ⟨hne, rfl, hnone⟩
  intro b
  rw [at?_set fs _ b .directory hne]
  by_cases hb : Path.address cwd p = b
  · rw [if_pos hb]
    exact Or.inr ⟨hb ▸ Path.address_mem_way cwd p, hb ▸ hnone, rfl⟩
  · rw [if_neg hb]
    exact Or.inl rfl

theorem ensureDirectory_addsOnWay (fs : FileSystem) (cwd p : Path) :
    AddsOnWay cwd p fs (fs.ensureDirectory cwd p).1 := by
  unfold ensureDirectory
  split
  · rename_i hmake
    exact makeDirectory_addsOnWay fs _ cwd p hmake
  · split <;> exact addsOnWay_refl cwd p fs
  · exact addsOnWay_refl cwd p fs

/-- The path of the directory above is a beginning of the path. -/
theorem way_above_subset (cwd p : Path) (b : Address) (hb : b ∈ Path.way cwd (above p).1) :
    b ∈ Path.way cwd p := by
  unfold above at hb
  split at hb
  · exact Path.way_directory_subset cwd p b (Path.way_directory_subset cwd _ b hb)
  · exact Path.way_directory_subset cwd p b hb

/-- Whether the directory above a path has to be made first. -/
def LacksAbove (fs : FileSystem) (cwd p : Path) : Prop :=
  (above p).1 ≠ [] ∧ (above p).2 ≠ [] ∧ (!fs.contains cwd (above p).1) = true ∧
    (above p).1.length < p.length

theorem makeDirectories_of_lacksAbove (fs made : FileSystem) (cwd p : Path)
    (h : LacksAbove fs cwd p) (hmade : fs.makeDirectories cwd (above p).1 = (made, none)) :
    fs.makeDirectories cwd p =
      if (above p).2 = Path.here then (made, none) else made.ensureDirectory cwd p := by
  unfold LacksAbove at h
  unfold makeDirectories
  simp only [dif_pos h, hmade]

theorem makeDirectories_of_not_lacksAbove (fs : FileSystem) (cwd p : Path)
    (h : ¬LacksAbove fs cwd p) : fs.makeDirectories cwd p = fs.ensureDirectory cwd p := by
  unfold LacksAbove at h
  unfold makeDirectories
  simp only [dif_neg h]

/-- What is left behind by making directories: what making the one itself leaves, perhaps
    after those above it, or no more than what those above it leave. -/
theorem makeDirectories_cases (fs : FileSystem) (cwd p : Path) :
    (fs.makeDirectories cwd p).1 = (fs.ensureDirectory cwd p).1 ∨
      LacksAbove fs cwd p ∧
        ((fs.makeDirectories cwd p).1 = (fs.makeDirectories cwd (above p).1).1 ∨
          (fs.makeDirectories cwd p).1 =
            ((fs.makeDirectories cwd (above p).1).1.ensureDirectory cwd p).1) := by
  by_cases hlacks : LacksAbove fs cwd p
  · refine Or.inr ⟨hlacks, ?_⟩
    rcases hmade : fs.makeDirectories cwd (above p).1 with ⟨made, fault⟩
    unfold LacksAbove at hlacks
    rw [makeDirectories]
    simp only [dif_pos hlacks, hmade]
    -- A fault above may leave it at what was made there, or be ignored.
    rcases fault with _ | fault
    · simp only
      split
      · exact Or.inl rfl
      · exact Or.inr rfl
    cases fault with
    | refused reason path =>
        simp only
        split
        · split
          · exact Or.inl rfl
          · exact Or.inr rfl
        · exact Or.inl rfl
    | _ => exact Or.inl rfl
  · rw [makeDirectories_of_not_lacksAbove fs cwd p hlacks]
    exact Or.inl rfl

/-- Whether or not all of them could be made, directories have been added on the
    way and nothing else has changed. -/
theorem makeDirectories_addsOnWay (fs : FileSystem) (cwd p : Path) :
    AddsOnWay cwd p fs (fs.makeDirectories cwd p).1 := by
  induction p using (measure List.length).wf.induction with
  | _ p ih =>
      have hway := way_above_subset cwd p
      rcases makeDirectories_cases fs cwd p with hown | ⟨hlacks, habove | hadded⟩
      · rw [hown]
        exact ensureDirectory_addsOnWay fs cwd p
      · rw [habove]
        exact addsOnWay_trans cwd _ p _ _ _ hway (ih _ hlacks.2.2.2) (addsOnWay_refl cwd p _)
      · rw [hadded]
        exact addsOnWay_trans cwd _ p _ _ _ hway (ih _ hlacks.2.2.2)
          (ensureDirectory_addsOnWay _ cwd p)

end FileSystem

end ClientPlan
