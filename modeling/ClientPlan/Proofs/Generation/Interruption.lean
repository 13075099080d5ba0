import ClientPlan.Proofs.Generation.Effect

/-!
# Runs That a Fault Ends

What a run leaves behind that does not write all that it has planned.

Without a clean-up only the last stage changes files, and it is not reached if
something has failed before and the run was not asked to keep going. So failures, and
whatever ends a run before that stage, leave the file system as it was. A fault of the
last stage itself is different. Each plan is written for good, and nothing is taken
back: the plans in front of the one that meets the fault are there in full, what was
made for that one are directories at most, and nothing behind it has been touched.

## Main definitions

* `Interrupted`: A file system after a fault of the last stage.

## Theorems

* `writePlan_addsOnWay`: A plan that meets a fault leaves no more than directories.
* `writeAll_eq_fault`: Where in the outputs a fault comes up.
* `run_of_clean_nil`: A run without a clean-up.
* `run_interrupted`: What is left after failures, and after any other end.
* `exists_run_partly_written`: A run can end with some of its plans written.
-/

namespace ClientPlan

namespace Generation

/-- The second file system is the first one after the plans of some outputs were
    written and the next one has met a fault. -/
structure Interrupted (cwd : Path) (before after : FileSystem) (outputs front : List Output)
    (out : Output) (reached : FileSystem) : Prop where
  split : ∃ rest, outputs = front ++ out :: rest
  /-- The plans in front have been written, and nothing else. -/
  written : Written cwd before reached front
  /-- After that no more than missing directories have been made, on the way of the
      next plan. -/
  added : FileSystem.AddsOnWay cwd (parentOf out) reached after

/-- A plan that could not be written leaves no more than directories on its way. -/
theorem writePlan_addsOnWay (fs fs' : FileSystem) (cwd : Path) (out : Output)
    (fault : FileSystem.Fault) (h : writePlan fs cwd out = (fs', some fault)) :
    FileSystem.AddsOnWay cwd (parentOf out) fs fs' := by
  have hadds := FileSystem.makeDirectories_addsOnWay fs cwd (parentOf out)
  unfold writePlan at h
  rcases hmade : fs.makeDirectories cwd (parentOf out) with ⟨made, _ | reason⟩
  · rw [hmade] at h hadds
    -- The file itself is written at once or not at all.
    rcases hwrite : made.write cwd out.file out.planned.plan.bytes with reason | written
    · simp only [hwrite, Prod.mk.injEq] at h
      rw [← h.1]
      exact hadds
    · simp only [hwrite, Prod.mk.injEq, reduceCtorEq, and_false] at h
  · rw [hmade] at h hadds
    simp only [Prod.mk.injEq] at h
    rw [← h.1]
    exact hadds

/-- A fault of the last stage comes up at one output. Those in front of it have been
    written, and those behind it have not been looked at. -/
theorem writeAll_eq_fault (fs fs' : FileSystem) (cwd : Path) (outputs : List Output)
    (log : List Log.Entry) (fault : FileSystem.Fault)
    (h : writeAll fs cwd outputs = (fs', log, some fault)) :
    ∃ front out rest reached, outputs = front ++ out :: rest ∧
      writeAll fs cwd front = (reached, log, none) ∧
      writePlan reached cwd out = (fs', some fault) := by
  -- By induction on the outputs: the first one is at fault, or it is one of those in front.
  induction outputs generalizing fs log with
  | nil => simp only [writeAll, Prod.mk.injEq, reduceCtorEq, and_false] at h
  | cons out outputs ih =>
      rw [writeAll] at h
      rcases hwrite : writePlan fs cwd out with ⟨next, _ | reason⟩
      · rcases hrest : writeAll next cwd outputs with ⟨last, entries, reason⟩
        simp only [hwrite, hrest, Prod.mk.injEq] at h
        rcases h with ⟨rfl, rfl, rfl⟩
        rcases ih next entries hrest with ⟨front, other, rest, reached, hsplit, hfront, hother⟩
        refine ⟨out :: front, other, rest, reached, by rw [hsplit, List.cons_append], ?_, hother⟩
        simp only [writeAll, hwrite, hfront]
      · simp only [hwrite, Prod.mk.injEq, Option.some.injEq] at h
        rcases h with ⟨rfl, rfl, rfl⟩
        exact ⟨[], out, outputs, fs, rfl, rfl, hwrite⟩

/-- A run that has nothing to clean up starts with the search. -/
theorem run_of_clean_nil (fs : FileSystem) (cwd root : Path) (o : Options) (h : o.clean = []) :
    run fs cwd root o =
      match Discovery.discover ⟨fs, cwd, o.recursive⟩ root (o.paths.map String.toList)
        (o.excludes.map String.toList) with
      | .error fault => ⟨fs, [], .crashed (.files fault)⟩
      | .ok sources => generate fs cwd o sources := by
  rw [run, h]
  rfl

/-- When nothing ends the survey, the last stage decides what is left and how the run
    ends. -/
theorem generate_of_loads (fs : FileSystem) (cwd : Path) (o : Options) (sources : List Path)
    (h : (survey fs cwd sources).crash = none) :
    (generate fs cwd o sources).fs = (finish fs cwd o.keepGoing
        ⟨Output.outputs (assignments fs cwd o sources), failures fs cwd o sources, []⟩).fs ∧
      (generate fs cwd o sources).ending = (finish fs cwd o.keepGoing
        ⟨Output.outputs (assignments fs cwd o sources), failures fs cwd o sources, []⟩).ending := by
  rcases survey_eq_flatMap fs cwd sources h with ⟨hplanned, hfailures, -⟩
  simp only [generate, h, settle, hplanned, hfailures, assignments, failures, finish]
  exact ⟨rfl, rfl⟩

/-- A run that neither cleans up nor keeps going leaves the file system alone if
    something has failed. If something else ends it, this was before anything was
    written, or nothing has failed and the plans in front of the fault are written. -/
theorem run_interrupted (fs : FileSystem) (cwd root : Path) (o : Options) (hclean : o.clean = [])
    (hstop : o.keepGoing = false) :
    (∀ failures keptGoing, (run fs cwd root o).ending = .failed failures keptGoing →
        (run fs cwd root o).fs = fs) ∧
      ∀ crash, (run fs cwd root o).ending = .crashed crash →
        (run fs cwd root o).fs = fs ∨
          ∃ sources front out reached fault,
            Discovery.discover ⟨fs, cwd, o.recursive⟩ root (o.paths.map String.toList)
              (o.excludes.map String.toList) = .ok sources ∧
            failures fs cwd o sources = [] ∧
            Interrupted cwd fs (run fs cwd root o).fs
              (Output.outputs (assignments fs cwd o sources)) front out reached ∧
            writePlan reached cwd out = ((run fs cwd root o).fs, some fault) ∧
            crash = .files fault := by
  rw [run_of_clean_nil fs cwd root o hclean]
  rcases hdiscover : Discovery.discover ⟨fs, cwd, o.recursive⟩ root (o.paths.map String.toList)
    (o.excludes.map String.toList) with fault | sources
  · exact ⟨fun _ _ _ => rfl, fun _ _ => Or.inl rfl⟩
  simp only
  -- A survey that is ended early leaves everything as it was.
  rcases hcrash : (survey fs cwd sources).crash with _ | crash
  · rcases generate_of_loads fs cwd o sources hcrash with ⟨hfs, hending⟩
    rw [hfs, hending, hstop]
    unfold finish
    -- Since the run does not keep going, a failure keeps it from writing anything.
    by_cases hfailed : failures fs cwd o sources ≠ [] ∧ (!false) = true
    · simp only [if_pos hfailed]
      exact ⟨fun _ _ _ => trivial, fun _ _ => Or.inl trivial⟩
    · simp only [if_neg hfailed]
      have hnone : failures fs cwd o sources = [] := by
        by_contra hsome
        exact hfailed ⟨hsome, rfl⟩
      -- What is left is the last stage, which ends with a fault or with all plans.
      rcases hwrite : writeAll fs cwd (Output.outputs (assignments fs cwd o sources))
        with ⟨after, entries, _ | fault⟩
      · simp only [hnone, endingOf, if_true]
        exact ⟨fun _ _ h => Ending.noConfusion h, fun _ h => Ending.noConfusion h⟩
      · refine ⟨fun _ _ h => Ending.noConfusion h, fun crash h => Or.inr ?_⟩
        rcases writeAll_eq_fault fs after cwd _ entries fault hwrite with
          ⟨front, out, rest, reached, hsplit, hfront, hout⟩
        simp only [Ending.crashed.injEq] at h
        exact ⟨sources, front, out, reached, fault, rfl, hnone,
          ⟨⟨rest, hsplit⟩, writeAll_written fs reached cwd front entries hfront,
            writePlan_addsOnWay reached after cwd out fault hout⟩, hout, h.symm⟩
  · simp only [generate, hcrash]
    exact ⟨fun _ _ _ => trivial, fun _ _ => Or.inl trivial⟩

/-- A directory with a definition file that declares two services, and with a
    directory in the place of the second plan. -/
def blocked : FileSystem where
  entries := [
    (["w".toList], .directory),
    (["w".toList, "a.conjure.json".toList],
      .file (Utf8.encode (Document.encode [⟨"A", none, []⟩, ⟨"B", none, []⟩]).render)),
    (["w".toList, "B.plan.json".toList], .directory)]

/-- The settings for planning everything in the directory, or nothing. -/
def planHere : Options :=
  { Options.default with paths := ["."] }

theorem run_interrupted_of_blocked :
    (planHere.clean = [] ∧ planHere.keepGoing = false) ∧
      ∃ sources front out reached fault,
        Discovery.discover ⟨blocked, "/w".toList, false⟩ "/w".toList [".".toList] [] =
          .ok sources ∧
        failures blocked "/w".toList planHere sources = [] ∧
        Interrupted "/w".toList blocked (run blocked "/w".toList "/w".toList planHere).fs
          (Output.outputs (assignments blocked "/w".toList planHere sources)) front out reached ∧
        writePlan reached "/w".toList out =
          ((run blocked "/w".toList "/w".toList planHere).fs, some fault) ∧
        Crash.files (.refused .isDirectory "/w/./B.plan.json".toList) = .files fault := by
  have hending : (run blocked "/w".toList "/w".toList planHere).ending =
      .crashed (.files (.refused .isDirectory "/w/./B.plan.json".toList)) := by
    decide +kernel
  -- The first of the two plans has been written.
  have hchanged : (run blocked "/w".toList "/w".toList planHere).fs ≠ blocked := by
    decide +kernel
  refine ⟨⟨rfl, rfl⟩, ?_⟩
  exact ((run_interrupted blocked "/w".toList "/w".toList planHere rfl rfl).2 _
    hending).resolve_left hchanged

/-- A run that is ended early can have written some plans and not the others. -/
theorem exists_run_partly_written :
    ¬ ∀ (fs : FileSystem) (cwd root : Path) (o : Options), fs.WellFormed → o.clean = [] →
      o.keepGoing = false → (run fs cwd root o).ending ≠ .finished →
        ∀ b content, (run fs cwd root o).fs.at? b = some (.file content) →
          fs.at? b = some (.file content) := by
  intro h
  have hafter := h blocked "/w".toList "/w".toList planHere (by decide) rfl rfl
    (by decide +kernel) ["w".toList, "A.plan.json".toList]
    (ServicePlan.mk ⟨"A", none, []⟩ []).bytes (by decide +kernel)
  exact absurd hafter (by decide +kernel)

end Generation

end ClientPlan
