import Mathlib.Data.List.Nodup
import ClientPlan.Proofs.FileSystem.Erasure
import ClientPlan.Proofs.Generation.Interruption
import ClientPlan.Proofs.Generation.Order
import ClientPlan.Proofs.Generation.Removal
import ClientPlan.Proofs.Glob.Literal

/-!
# How a Clean-Up Ends

What is gone after a clean-up, finished or not, and what stops it.

A clean-up removes one path after the other that its patterns stand for. Nobody asks
what those paths lead to. So it stops at a directory, at a file that is gone already
since it was found under two paths, and at a path that leads nowhere, which two stars
can stand for. What has been removed until then stays removed. Whatever stops it, only
files are gone that a pattern stands for, and a clean-up that is not stopped has removed
all of them. All this does not depend on the order of the removals.

A removal is looked at in the file system that the earlier ones have left. The first
file system decides it all the same: directories are still there, and a path that leads
to a file now has led to it from the start (`removed_step`).

## Main definitions

* `Unremovable`: Why a path cannot be removed after some others.
* `CleansUp`: What a clean-up leaves behind and how it ends.

## Theorems

* `removed_concat`: One more removal behind the others.
* `Removed.grown`: The first file system has more files than the last one.
* `removed_step`: A path is removed, or there is a reason why it cannot be.
* `removeAll_cases`: How far a clean-up gets.
* `cleansUp_removeAll`: A clean-up in any order.
* `clean_up_outcome`: The first stage of a run.
* `exists_clean_up_stopped`: A clean-up can be stopped.
-/

namespace ClientPlan

namespace Generation

/-- Why a path cannot be removed after some others, and the fault that is reported. -/
inductive Unremovable (fs : FileSystem) (cwd : Path) (removed : List Path) (p : Path) :
    FileSystem.Fault → Prop
  /-- The path leads to a directory. -/
  | directory (there : fs.isDirectory cwd p = true) :
      Unremovable fs cwd removed p (.refused .isDirectory p)
  /-- The path has led to a file that was removed under another one. -/
  | gone {q : Path} (there : fs.isFile cwd p = true) (earlier : q ∈ removed)
      (same : Path.address cwd q = Path.address cwd p) :
      Unremovable fs cwd removed p (.refused .notFound p)
  /-- The path has never led anywhere. -/
  | nowhere {reason : FileSystem.Reason} (nothing : fs.contains cwd p = false) :
      Unremovable fs cwd removed p (.refused reason p)

section Removals

variable {fs after next : FileSystem} {cwd : Path} {removed : List Path}

theorem removed_concat (h : Removed cwd fs after removed) (p : Path)
    (hremove : after.remove cwd p = .ok next) : Removed cwd fs next (removed ++ [p]) := by
  rcases FileSystem.remove_eq_ok after next cwd p hremove with ⟨hne, rfl, content, hfile⟩
  constructor
  · intro q hq
    rcases List.mem_append.1 hq with hq | hq
    · exact h.files q hq
    · -- What is there after the other removals was there before them.
      rw [List.mem_singleton.1 hq]
      rw [h.entries] at hfile
      split at hfile
      · cases hfile
      · exact ⟨content, hfile⟩
  · intro b
    -- One more file is gone, and all else is as before.
    rw [FileSystem.at?_erase after _ b hne, h.entries b, List.map_append, List.map_singleton]
    simp only [List.mem_append, List.mem_singleton]
    by_cases hb : Path.address cwd p = b
    · rw [if_pos hb, if_pos (Or.inr hb.symm)]
    · simp only [hb, Ne.symm hb, if_false, or_false]

/-- No directory is removed. -/
theorem Removed.directories (h : Removed cwd fs after removed) (b : Address)
    (hb : fs.at? b = some .directory) : after.at? b = some .directory := by
  rw [h.entries b, if_neg]
  · exact hb
  · intro hmem
    rcases List.mem_map.1 hmem with ⟨p, hp, rfl⟩
    rcases h.files p hp with ⟨content, hcontent⟩
    rw [hb] at hcontent
    cases hcontent

/-- The file system has grown if the removals are looked at backwards. -/
theorem Removed.grown (h : Removed cwd fs after removed) :
    FileSystem.Grown (fun b => b ∈ removed.map (Path.address cwd)) after fs := by
  -- Whatever is still there has not changed.
  have hstill : ∀ b entry, after.at? b = some entry → fs.at? b = some entry := by
    intro b entry hb
    rw [h.entries b] at hb
    split at hb
    · cases hb
    · exact hb
  constructor
  · exact fun b hb => hstill b .directory hb
  · exact fun b content hb => ⟨content, hstill b (.file content) hb⟩
  · intro b content hb
    by_cases hgone : b ∈ removed.map (Path.address cwd)
    · exact Or.inl hgone
    · rw [h.entries b, if_neg hgone]
      exact Or.inr hb

/-- A path to a file that is still there is removed. For any other one there is a reason why
    it cannot be. -/
theorem removed_step (hfs : fs.WellFormed) (h : Removed cwd fs after removed) (p : Path)
    (hnul : '\x00' ∉ p) :
    (fs.isFile cwd p = true ∧ Path.address cwd p ∉ removed.map (Path.address cwd) ∧
        ∃ next, after.remove cwd p = .ok next ∧ Removed cwd fs next (removed ++ [p])) ∨
      ∃ fault, after.remove cwd p = .error fault ∧ Unremovable fs cwd removed p fault := by
  by_cases hfile : fs.isFile cwd p = true
  · rcases hfs.file_cases hfile with ⟨hp, hname, hmoves, habove, content, hcontent⟩
    have hstill := fun b hb => h.directories b (habove b hb)
    by_cases hgone : Path.address cwd p ∈ removed.map (Path.address cwd)
    · -- The same file was removed under a path in front.
      rcases List.mem_map.1 hgone with ⟨q, hq, hsame⟩
      have hnothing : after.at? (Path.address cwd p) = none := by
        rw [h.entries, if_pos hgone]
      exact Or.inr ⟨_, FileSystem.remove_of_gone after cwd p hp hname hmoves hstill hnothing,
        .gone hfile hq hsame⟩
    · have hthere : after.at? (Path.address cwd p) = some (.file content) := by
        rw [h.entries, if_neg hgone]
        exact hcontent
      have hremove := FileSystem.remove_of_above after cwd p hp hname hmoves hstill content hthere
      exact Or.inl ⟨hfile, hgone, _, hremove, removed_concat h p hremove⟩
  refine Or.inr ?_
  by_cases hdirectory : fs.isDirectory cwd p = true
  · have hdir := FileSystem.directory?_of_isDirectory fs cwd p hdirectory
    rcases (FileSystem.directory?_eq_some_iff fs cwd p _).1 hdir with ⟨hresolve, hentry⟩
    have hwalk := ((FileSystem.resolve_eq_ok_iff fs cwd p _).1 hresolve).2.2
    have hway := FileSystem.way_of_walk fs cwd p _ hwalk hentry
    exact ⟨_, FileSystem.remove_of_way after cwd p (.of_resolve hfs hresolve)
      fun b hb => h.directories b (hway b hb), .directory hdirectory⟩
  · -- A path that leads to neither leads nowhere, and nothing has been added since.
    have hnothing : fs.contains cwd p = false := by
      rcases fs.tests_cases cwd p with ⟨hthere, -⟩ | ⟨-, hthere, -⟩ | ⟨-, -, hnowhere⟩
      · exact absurd hthere hfile
      · exact absurd hthere hdirectory
      · exact hnowhere
    rcases hremove : after.remove cwd p with fault | next
    · rcases FileSystem.remove_eq_error after cwd p hnul fault hremove with ⟨reason, rfl⟩
      exact ⟨_, rfl, .nowhere hnothing⟩
    · exact absurd (h.grown.isFile cwd p (FileSystem.isFile_of_remove after cwd p next hremove))
        hfile

/-- A clean-up removes the paths up to one that cannot be removed, if there is one. -/
theorem removeAll_cases (hfs : fs.WellFormed) (paths : List Path)
    (h : Removed cwd fs after removed) (hnul : ∀ p ∈ paths, '\x00' ∉ p)
    (hapart : (removed.map (Path.address cwd)).Nodup) :
    ∃ front rest, paths = front ++ rest ∧ (∀ p ∈ front, fs.isFile cwd p = true) ∧
      ((removed ++ front).map (Path.address cwd)).Nodup ∧
      Removed cwd fs (removeAll after cwd paths).1 (removed ++ front) ∧
      ((removeAll after cwd paths).2 = none ∧ rest = [] ∨
        ∃ p behind fault, rest = p :: behind ∧ (removeAll after cwd paths).2 = some fault ∧
          Unremovable fs cwd (removed ++ front) p fault) := by
  -- By induction on the paths; what has been removed so far grows from step to step.
  induction paths generalizing after removed with
  | nil =>
      refine ⟨[], [], rfl, List.forall_mem_nil _, ?_, ?_, Or.inl ⟨rfl, rfl⟩⟩
      · rw [List.append_nil]
        exact hapart
      · rw [List.append_nil]
        exact h
  | cons p paths ih =>
      rw [List.forall_mem_cons] at hnul
      rcases removed_step hfs h p hnul.1 with
        ⟨hfile, hnew, next, hremove, hnext⟩ | ⟨fault, hremove, hwhy⟩
      · have hapart' : ((removed ++ [p]).map (Path.address cwd)).Nodup := by
          rw [List.map_append, List.map_singleton, ← List.concat_eq_append]
          exact hapart.concat hnew
        rcases ih hnext hnul.2 hapart' with ⟨front, rest, rfl, hfiles, hall, heffect, hend⟩
        rw [List.append_assoc, List.singleton_append] at hall heffect hend
        simp only [removeAll, hremove]
        exact ⟨p :: front, rest, rfl, List.forall_mem_cons.2 ⟨hfile, hfiles⟩, hall, heffect, hend⟩
      · -- The clean-up stops here, and nothing more has happened.
        simp only [removeAll, hremove]
        refine ⟨[], p :: paths, rfl, List.forall_mem_nil _, ?_, ?_,
          Or.inr ⟨p, paths, fault, rfl, rfl, ?_⟩⟩
        · rw [List.append_nil]
          exact hapart
        · rw [List.append_nil]
          exact h
        · rw [List.append_nil]
          exact hwhy

end Removals

/-- What a clean-up leaves behind and how it ends, when it is asked for certain paths. -/
structure CleansUp (fs : FileSystem) (cwd : Path) (isObsolete : Path → Prop)
    (result : FileSystem × Option FileSystem.Fault) : Prop where
  /-- Only files are gone, under paths that were asked for. These are all of them, or a fault
      says which one could not be removed. -/
  effect : ∃ removed, Removed cwd fs result.1 removed ∧
    (∀ p ∈ removed, isObsolete p ∧ fs.isFile cwd p = true) ∧
    (result.2 = none → ∀ p, isObsolete p → p ∈ removed) ∧
    ∀ fault, result.2 = some fault →
      ∃ p, isObsolete p ∧ p ∉ removed ∧ Unremovable fs cwd removed p fault
  /-- It is not stopped if each path leads to a file, and no two of them to the same. -/
  finishes : result.2 = none ↔ (∀ p, isObsolete p → fs.isFile cwd p = true) ∧
    ∀ p q, isObsolete p → isObsolete q → Path.address cwd p = Path.address cwd q → p = q

/-- What cannot be removed is no file, or a file that has been removed. -/
theorem Unremovable.not_last {fs : FileSystem} {cwd p : Path} {removed : List Path}
    {fault : FileSystem.Fault} (h : Unremovable fs cwd removed p fault)
    (hfile : fs.isFile cwd p = true) : Path.address cwd p ∈ removed.map (Path.address cwd) := by
  rcases fs.tests_cases cwd p with ⟨-, hdirectory, hthere⟩ | ⟨hother, -⟩ | ⟨hother, -⟩
  · cases h with
    | directory there => exact absurd (hdirectory.symm.trans there) Bool.false_ne_true
    | gone _ earlier same => exact List.mem_map.2 ⟨_, earlier, same⟩
    | nowhere nothing => exact absurd (nothing.symm.trans hthere) Bool.false_ne_true
  · exact absurd (hother.symm.trans hfile) Bool.false_ne_true
  · exact absurd (hother.symm.trans hfile) Bool.false_ne_true

/-- In whatever order the paths are removed, a clean-up does what can be expected of it. -/
theorem cleansUp_removeAll (fs : FileSystem) (hfs : fs.WellFormed) (cwd : Path)
    (paths : List Path) (hnodup : paths.Nodup) (hnul : ∀ p ∈ paths, '\x00' ∉ p) :
    CleansUp fs cwd (fun p => p ∈ paths) (removeAll fs cwd paths) := by
  rcases removeAll_cases hfs paths (removed_nil cwd fs) hnul List.nodup_nil with
    ⟨front, rest, hsplit, hfiles, hapart, heffect, hend⟩
  rw [List.nil_append] at hapart heffect hend
  rw [hsplit] at hnodup
  rcases hend with ⟨hnone, rfl⟩ | ⟨p, behind, fault, rfl, hfault, hwhy⟩
  · rw [List.append_nil] at hsplit
    rw [hsplit] at hnone heffect ⊢
    refine ⟨⟨front, heffect, fun p hp => ⟨hp, hfiles p hp⟩, fun _ p hp => hp, ?_⟩, ?_⟩
    · intro fault hfault
      rw [hnone] at hfault
      cases hfault
    · exact iff_of_true hnone ⟨hfiles, fun p q hp hq => List.inj_on_of_nodup_map hapart hp hq⟩
  · have hmem : p ∈ paths := by
      rw [hsplit]
      exact List.mem_append_right front List.mem_cons_self
    -- No path is there twice, so the one that has stopped it was not removed.
    have hlate : p ∉ front := fun hp =>
      (List.nodup_append.1 hnodup).2.2 p hp p List.mem_cons_self rfl
    have hearly : ∀ q ∈ front, q ∈ paths := by
      intro q hq
      rw [hsplit]
      exact List.mem_append_left _ hq
    refine ⟨⟨front, heffect, fun q hq => ⟨hearly q hq, hfiles q hq⟩, ?_, ?_⟩, ?_⟩
    · intro hnone
      rw [hfault] at hnone
      cases hnone
    · intro other hother
      rw [hfault, Option.some.injEq] at hother
      exact ⟨p, hmem, hlate, hother ▸ hwhy⟩
    · -- The path that has stopped it is no file, or not the only path of its file.
      rw [hfault]
      refine iff_of_false (Option.some_ne_none fault) ?_
      rintro ⟨hall, hinjective⟩
      rcases List.mem_map.1 (hwhy.not_last (hall p hmem)) with ⟨q, hq, hsame⟩
      exact hlate (hinjective q p (hearly q hq) hmem hsame ▸ hq)

/-- The paths that a clean-up is asked for are distinct, and none holds a NUL character. -/
theorem nodup_cleanPaths (s : Glob.Search) (hfs : s.fs.WellFormed) (root : Path)
    (patterns found : List Path) (h : cleanPaths s root patterns = .ok found) :
    found.Nodup ∧ ∀ p ∈ found, '\x00' ∉ p := by
  constructor
  · rcases cleanPaths_eq_ok s root patterns found h with ⟨gathered, -, rfl⟩
    exact (Discovery.sortDistinct_ascending gathered).nodup
  · intro p hp
    rcases (mem_cleanPaths s root patterns found h p).1 hp with ⟨pattern, -, some, hsome, hmem⟩
    exact ((Glob.mem_expand_iff s hfs false _ some hsome p).1 hmem).nul_notMem hfs

/-- A clean-up does not begin only if one of its patterns holds a NUL character. -/
theorem cleanPaths_eq_error (s : Glob.Search) (hfs : s.fs.WellFormed) (root : Path)
    (patterns : List Path) (fault : FileSystem.Fault)
    (h : cleanPaths s root patterns = .error fault) :
    fault = .nulInPath ∧ ∃ pattern ∈ patterns, '\x00' ∈ Path.join root pattern := by
  unfold cleanPaths at h
  rcases hgather : Discovery.gather (fun p => s.expand false (Path.join root p)) patterns
    with reason | gathered
  · rw [hgather] at h
    cases h
    rcases Discovery.gather_eq_error _ patterns fault hgather with ⟨pattern, hmem, hexpand⟩
    refine ⟨Glob.expand_eq_error s false _ fault hexpand, pattern, hmem, ?_⟩
    -- A pattern without a NUL character can be expanded.
    by_contra hnul
    rcases Glob.exists_expand_ok_of_notMem s hfs false _ hnul with ⟨found, hfound⟩
    rw [hexpand] at hfound
    cases hfound
  · rw [hgather] at h
    cases h

/-- The first stage of a run removes the files that its patterns stand for, in whatever order.
    If it is stopped, so is the run, and if it is not, the run goes on like one without it. -/
theorem clean_up_outcome (fs : FileSystem) (hfs : fs.WellFormed) (cwd root : Path)
    (o : Options) :
    let s : Glob.Search := ⟨fs, cwd, o.recursive⟩
    let patterns := o.clean.map String.toList
    (∀ fault, cleanPaths s root patterns = .error fault →
        (fault = .nulInPath ∧ ∃ pattern ∈ patterns, '\x00' ∈ Path.join root pattern) ∧
          run fs cwd root o = ⟨fs, [], .crashed (.files fault)⟩) ∧
      ∀ found, cleanPaths s root patterns = .ok found →
        (∀ paths, paths.Perm found →
          CleansUp fs cwd (Obsolete s root patterns) (removeAll fs cwd paths)) ∧
        (∀ fault, (removeAll fs cwd found).2 = some fault →
          run fs cwd root o =
            ⟨(removeAll fs cwd found).1, [], .crashed (.files fault)⟩) ∧
        ((removeAll fs cwd found).2 = none →
          run fs cwd root o = run (removeAll fs cwd found).1 cwd root { o with clean := [] }) := by
  intro s patterns
  constructor
  · intro fault hfault
    refine ⟨cleanPaths_eq_error s hfs root patterns fault hfault, ?_⟩
    simp only [run, s, patterns] at hfault ⊢
    rw [hfault]
  intro found hfound
  rcases nodup_cleanPaths s hfs root patterns found hfound with ⟨hnodup, hnul⟩
  refine ⟨?_, ?_, ?_⟩
  · intro paths hperm
    -- The paths that are found are those that the patterns stand for.
    have hsame : Obsolete s root patterns = fun p => p ∈ paths := by
      funext p
      rw [← mem_cleanPaths s root patterns found hfound p, hperm.mem_iff]
    rw [hsame]
    exact cleansUp_removeAll fs hfs cwd paths (hperm.nodup_iff.2 hnodup)
      fun p hp => hnul p (hperm.mem_iff.1 hp)
  · intro fault hfault
    rcases hremove : removeAll fs cwd found with ⟨after, reason⟩
    rw [hremove] at hfault
    simp only at hfault
    simp only [run, s, patterns] at hfound ⊢
    simp only [hfound, hremove, hfault]
  · intro hnone
    rcases hremove : removeAll fs cwd found with ⟨after, reason⟩
    rw [hremove] at hnone
    simp only at hnone
    -- The rest of the run does not look at the patterns any more.
    rw [run_of_clean_nil after cwd root _ rfl]
    simp only [run, s, patterns] at hfound ⊢
    simp only [hfound, hremove, hnone]
    rfl

/-- A directory with two files and another directory. -/
def litter : FileSystem where
  entries := [
    (["w".toList], .directory),
    (["w".toList, "a.txt".toList], .file []),
    (["w".toList, "b.txt".toList], .file []),
    (["w".toList, "d".toList], .directory)]

/-- The settings for cleaning up what some patterns stand for. -/
def sweep (patterns : List String) : Options :=
  { Options.default with clean := patterns }

/-- A file that two patterns spell differently is removed, and stops the clean-up when its
    turn comes again. -/
theorem clean_up_outcome_of_twoSpellings :
    let root := "/w".toList
    let patterns := ["a.txt".toList, "./a.txt".toList]
    let found := ["/w/./a.txt".toList, "/w/a.txt".toList]
    let fault := FileSystem.Fault.refused .notFound "/w/a.txt".toList
    (litter.WellFormed ∧ cleanPaths ⟨litter, root, false⟩ root patterns = .ok found ∧
        (removeAll litter root found).2 = some fault) ∧
      CleansUp litter root (Obsolete ⟨litter, root, false⟩ root patterns)
        (removeAll litter root found) ∧
      run litter root root (sweep ["a.txt", "./a.txt"]) =
        ⟨(removeAll litter root found).1, [], .crashed (.files fault)⟩ := by
  intro root patterns found fault
  have hfs : litter.WellFormed := by decide
  have hfound : cleanPaths ⟨litter, root, false⟩ root patterns = .ok found := by decide +kernel
  have hfault : (removeAll litter root found).2 = some fault := by decide +kernel
  have houtcome := clean_up_outcome litter hfs root root (sweep ["a.txt", "./a.txt"])
  rcases houtcome.2 found hfound with ⟨hclean, hstopped, -⟩
  exact ⟨⟨hfs, hfound, hfault⟩, hclean found (.refl found), hstopped fault hfault⟩

/-- A clean-up is stopped by a directory that one of its patterns stands for. -/
theorem exists_clean_up_stopped :
    ¬ ∀ (fs : FileSystem) (cwd root : Path) (recursive : Bool) (patterns : List Path),
      fs.WellFormed → ∃ found after, cleanPaths ⟨fs, cwd, recursive⟩ root patterns = .ok found ∧
        removeAll fs cwd found = (after, none) ∧
        ∀ p ∈ found, fs.isFile cwd p = true → after.at? (Path.address cwd p) = none := by
  intro h
  rcases h litter "/w".toList "/w".toList false ["d".toList] (by decide) with
    ⟨found, after, hfound, hremoved, -⟩
  have hdirectory : cleanPaths ⟨litter, "/w".toList, false⟩ "/w".toList ["d".toList] =
      .ok ["/w/d".toList] := by decide +kernel
  rw [hdirectory, Except.ok.injEq] at hfound
  have hstopped : (removeAll litter "/w".toList ["/w/d".toList]).2 =
      some (.refused .isDirectory "/w/d".toList) := by decide +kernel
  rw [hfound, hremoved] at hstopped
  cases hstopped

end Generation

end ClientPlan
