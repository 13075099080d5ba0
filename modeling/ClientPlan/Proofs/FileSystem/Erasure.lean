import ClientPlan.Proofs.FileSystem.Growth
import ClientPlan.Proofs.FileSystem.Progress

/-!
# Removing Files

When a file can be removed, and what the fault is when it cannot.

A path that leads to a file has directories in front of a name that leads down, so the
file is removed. The other paths fail. One that led to a file that is gone by now finds
nothing under that name, one that leads to a directory is refused as such, however it is
spelled, and whatever else is wrong with a path, the fault names the path. The first of
these needs the directories in front of the file only, and those are still there after
other files have been removed.

## Theorems

* `Admissible.of_resolve`: A path that leads somewhere is taken as it is written.
* `WellFormed.file_cases`: What a path is like that leads to a file.
* `remove_of_above`, `remove_of_gone`: Removing a file that is there, and one that is not.
* `remove_of_way`: Removing a directory.
* `isFile_of_remove`: Only a path that leads to a file is removed.
* `remove_eq_error`: Every other fault names the path.
-/

namespace ClientPlan

namespace FileSystem

/-- A path that leads somewhere is taken as it is written. -/
theorem Admissible.of_resolve {fs : FileSystem} (h : fs.WellFormed) {cwd p : Path} {a : Address}
    (hp : fs.resolve cwd p = .ok a) : Admissible cwd p := by
  rcases (resolve_eq_ok_iff fs cwd p a).1 hp with ⟨hne, hshort, hwalk⟩
  refine ⟨hne, nul_notMem_of_leads fs h cwd p ⟨a, hwalk⟩, hshort, fun name hname => ?_⟩
  exact fits_of_walk fs _ [] a hwalk name (List.mem_filter.1 hname).1

/-- A path that leads to a file has directories in front of a last name that leads down. -/
theorem WellFormed.file_cases {fs : FileSystem} (h : fs.WellFormed) {cwd p : Path}
    (hp : fs.isFile cwd p = true) :
    Admissible cwd p ∧ Path.lastName p ≠ [] ∧
      ¬(Path.lastName p = Path.here ∨ Path.lastName p = Path.up) ∧
      (∀ b ∈ Path.above cwd p, fs.at? b = some .directory) ∧
      ∃ content, fs.at? (Path.address cwd p) = some (.file content) := by
  rcases (isFile_iff fs cwd p).1 hp with ⟨a, content, hresolve, hentry⟩
  have hwalk := ((resolve_eq_ok_iff fs cwd p a).1 hresolve).2.2
  rcases h.lastName_of_walk cwd p a content hwalk hentry with ⟨front, hfront⟩
  have hname : IsName (Path.lastName p) := by
    refine h.isName a (by rw [hentry, Option.isSome_some]) _ ?_
    rw [hfront]
    exact List.mem_append_right front List.mem_cons_self
  refine ⟨.of_resolve h hresolve, hname.1, not_or.2 ⟨hname.2.1, hname.2.2.1⟩, ?_, content, ?_⟩
  · -- In front of the name is the way of the directory.
    intro b hb
    rcases walk_directory fs cwd p a hwalk with ⟨base, hbase, hdirectory, -⟩
    exact way_of_walk fs cwd _ base hbase hdirectory b
      (Path.mem_way_directory_of_mem_above cwd p b hname.1 hb)
  · rw [← resolve_eq_ok fs cwd p a hresolve]
    exact hentry

section Remove

variable (fs : FileSystem) (cwd p : Path)

theorem remove_of_above (hp : Admissible cwd p) (hname : Path.lastName p ≠ [])
    (hmoves : ¬(Path.lastName p = Path.here ∨ Path.lastName p = Path.up))
    (h : ∀ b ∈ Path.above cwd p, fs.at? b = some .directory) (content : List UInt8)
    (hfile : fs.at? (Path.address cwd p) = some (.file content)) :
    fs.remove cwd p = .ok (fs.erase (Path.address cwd p)) := by
  rcases target_of_lastName fs cwd p hp hname hmoves h with ⟨parent, htarget, haddress, hfits⟩
  rw [remove, if_neg hp.nul, htarget]
  simp only [haddress, hfits, hfile, Bool.not_true, Bool.false_eq_true, if_false]

theorem remove_of_gone (hp : Admissible cwd p) (hname : Path.lastName p ≠ [])
    (hmoves : ¬(Path.lastName p = Path.here ∨ Path.lastName p = Path.up))
    (h : ∀ b ∈ Path.above cwd p, fs.at? b = some .directory)
    (hgone : fs.at? (Path.address cwd p) = none) :
    fs.remove cwd p = .error (.refused .notFound p) := by
  rcases target_of_lastName fs cwd p hp hname hmoves h with ⟨parent, htarget, haddress, hfits⟩
  rw [remove, if_neg hp.nul, htarget]
  simp only [haddress, hfits, hgone, Bool.not_true, Bool.false_eq_true, if_false]

/-- A directory is refused, whether its path ends in its name or leads to it otherwise. -/
theorem remove_of_way (hp : Admissible cwd p)
    (h : ∀ b ∈ Path.way cwd p, fs.at? b = some .directory) :
    fs.remove cwd p = .error (.refused .isDirectory p) := by
  rw [remove, if_neg hp.nul]
  rcases List.eq_nil_or_concat' (Path.names (Path.join cwd p)) with hnil | ⟨front, name, hnames⟩
  · -- A path without names leads to the root.
    have htarget : ∃ slash, fs.target cwd p = .ok ⟨[], none, slash⟩ := by
      rw [target, if_neg hp.ne_nil, if_neg (by rw [hp.length]; exact Bool.false_ne_true)]
      rcases hlast : lastFirst (Path.segments (Path.join cwd p)) with ⟨_ | ⟨last, reversed⟩, slash⟩
      · exact ⟨slash, rfl⟩
      · have hcut := (names_of_lastFirst _ last reversed slash hlast).2
        rw [← Path.names, hnil] at hcut
        exact absurd hcut.symm
          (List.append_ne_nil_of_right_ne_nil _ (List.cons_ne_nil last []))
    rcases htarget with ⟨slash, htarget⟩
    rw [htarget]
  · have habove : ∀ b ∈ Path.above cwd p, fs.at? b = some .directory := by
      intro b hb
      rcases (Path.mem_above_iff cwd p b).1 hb with ⟨start, hstart, hfollow⟩
      exact h b ((Path.mem_way_iff cwd p b).2
        ⟨start, hstart.trans (List.dropLast_prefix _), hfollow⟩)
    have htarget := target_of_above fs cwd p front name hp hnames habove
    rw [htarget]
    -- A last name that leads nowhere further is refused before the entry is looked at.
    by_cases hmoves : name = Path.here ∨ name = Path.up
    · simp only [if_pos hmoves]
    · rw [if_neg hmoves] at htarget ⊢
      have haddress := (target_eq_ok fs cwd p _ _ _ htarget).1
      have hfits : fits name = true := by
        refine hp.names name ?_
        rw [hnames]
        exact List.mem_append_right front List.mem_cons_self
      simp only [haddress, hfits, h _ (Path.address_mem_way cwd p), Bool.not_true,
        Bool.false_eq_true, if_false]

/-- Only a path that leads to a file is removed. -/
theorem isFile_of_remove (fs' : FileSystem) (h : fs.remove cwd p = .ok fs') :
    fs.isFile cwd p = true := by
  rcases (remove_eq_ok fs fs' cwd p h).2.2 with ⟨content, hfile⟩
  unfold remove at h
  split at h
  · cases h
  rcases htarget : fs.target cwd p with reason | ⟨parent, _ | name, slash⟩
  · simp only [htarget, reduceCtorEq] at h
  · simp only [htarget, reduceCtorEq] at h
  have haddress := (target_eq_ok fs cwd p parent name slash htarget).1
  simp only [htarget, haddress, hfile] at h
  split at h
  · cases h
  rename_i hfits
  split at h
  · cases h
  rename_i hslash
  rw [Bool.not_eq_true', Bool.not_eq_false] at hfits
  rw [Bool.not_eq_true] at hslash
  rcases target_cases fs cwd p parent name slash htarget with
    ⟨hne, hshort, reversed, hlast, hwalk, hparent, hhere, hup⟩
  rw [hslash] at hlast
  have hnamed := (names_of_lastFirst _ name reversed false hlast).1
  -- Without a slash at its end the path is looked up along the same names.
  refine (isFile_iff fs cwd p).2 ⟨parent ++ [name], content, ?_, haddress ▸ hfile⟩
  rw [resolve_eq_ok_iff]
  refine ⟨hne, hshort, ?_⟩
  rw [segments_of_lastFirst _ name reversed hlast, walk_append, hwalk]
  simp only
  rw [walk, hparent]
  simp only [hnamed, hhere, hup, hfits, or_self, if_false, Bool.not_true, Bool.false_eq_true]
  rw [haddress, hfile, walk]

/-- Every fault but one over a NUL character names the path. -/
theorem remove_eq_error (hnul : '\x00' ∉ p) (fault : Fault)
    (h : fs.remove cwd p = .error fault) : ∃ reason, fault = .refused reason p := by
  -- Wherever the removal stops, it says so of its own path.
  unfold remove at h
  rw [if_neg hnul] at h
  rcases htarget : fs.target cwd p with reason | ⟨parent, _ | name, slash⟩
  · simp only [htarget, Except.error.injEq] at h
    exact ⟨reason, h.symm⟩
  · simp only [htarget, Except.error.injEq] at h
    exact ⟨_, h.symm⟩
  simp only [htarget] at h
  split at h
  · exact ⟨_, (Except.error.inj h).symm⟩
  rcases hentry : fs.at? (parent ++ [name]) with _ | _ | content
  · simp only [hentry, Except.error.injEq] at h
    exact ⟨_, h.symm⟩
  · simp only [hentry, Except.error.injEq] at h
    exact ⟨_, h.symm⟩
  · simp only [hentry] at h
    split at h
    · exact ⟨_, (Except.error.inj h).symm⟩
    · cases h

end Remove

end FileSystem

end ClientPlan
