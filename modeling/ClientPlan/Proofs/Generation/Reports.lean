import ClientPlan.Proofs.Generation.Account

/-!
# Reports of Failures

What is logged about failures.

A failure is reported where it is found: when a file is not loaded, when a service has no
plan, and when the file of a plan is taken. It is collected at the same place, but apart
from the log. The two keep step, since each stage adds the same failures to both, and
nothing else that is logged is an error. So the errors in the log of a run are its
failures, whether or not the run goes on (`errors_survey`, `errors_generate`). How a run
ends adds one error at most, the one about the run as a whole, and being an error it is
shown in any case.

## Main definitions

* `Log.errors`: The errors in a log.
* `Log.IsQuiet`: A log without errors.
* `CommandLine.shownLog`: What a call shows that starts a run.

## Theorems

* `isQuiet_log`: Planning a service reports no errors by itself.
* `errors_survey`: The errors of the survey are its failures.
* `isQuiet_writeAll`: Writing reports no errors.
* `errors_generate`: The errors of a run are its failures.
* `execute_reports_failures`: The errors that a call shows.
-/

namespace ClientPlan

namespace Log

/-- The errors in a log. -/
def errors (log : List Entry) : List Entry :=
  log.filter fun e => e.level = .error

/-- A log without errors. -/
def IsQuiet (log : List Entry) : Prop :=
  ∀ e ∈ log, e.level ≠ .error

theorem errors_append (log more : List Entry) : errors (log ++ more) = errors log ++ errors more :=
  List.filter_append ..

theorem errors_of_quiet {log : List Entry} (h : IsQuiet log) : errors log = [] := by
  rw [errors, List.filter_eq_nil_iff]
  intro e he hlevel
  exact h e he (of_decide_eq_true hlevel)

theorem IsQuiet.append {log more : List Entry} (h : IsQuiet log) (hmore : IsQuiet more) :
    IsQuiet (log ++ more) :=
  List.forall_mem_append.2 ⟨h, hmore⟩

theorem errors_failures (failures : List Failure) :
    errors (failures.map Failure.logEntry) = failures.map Failure.logEntry := by
  rw [errors, List.filter_eq_self]
  intro e he
  rcases List.mem_map.1 he with ⟨f, -, rfl⟩
  rfl

/-- Errors are shown, whether or not the least important entries are. -/
theorem errors_filter_isShown (verbose : Bool) (log : List Entry) :
    errors (log.filter (Entry.isShown verbose)) = errors log := by
  rw [errors, List.filter_filter]
  refine List.filter_congr fun e _ => ?_
  rcases hlevel : e.level <;> simp [Entry.isShown, hlevel]

end Log

/-- Planning an endpoint reports no errors: a failure is left to the service. -/
theorem Endpoint.isQuiet_log (service : String) (e : Endpoint TypeExpr) :
    Log.IsQuiet (e.log service) := by
  refine Log.IsQuiet.append ?_ ?_
  · intro entry hentry
    rcases List.mem_map.1 hentry with ⟨i, -, rfl⟩
    exact Log.Level.noConfusion
  · rcases e.plan with error | plan
    · exact List.forall_mem_singleton.2 Log.Level.noConfusion
    · exact List.forall_mem_nil _

namespace Service

theorem isQuiet_logAfter (service : String) (endpoints : List (Endpoint TypeExpr)) :
    ∀ used, Log.IsQuiet (logAfter service used endpoints) := by
  induction endpoints with
  | nil => exact fun _ => List.forall_mem_nil _
  | cons e endpoints ih =>
      intro used
      rw [logAfter]
      split
      · exact ih used
      · exact (e.isQuiet_log service).append (ih (e.name :: used))

/-- Planning a service reports no errors by itself. -/
theorem isQuiet_log (s : Service TypeExpr) : Log.IsQuiet s.log := by
  refine (isQuiet_logAfter s.name s.endpoints []).append ?_
  rcases s.plan with error | plan
  · exact List.forall_mem_nil _
  · exact List.forall_mem_singleton.2 Log.Level.noConfusion

end Service

/-- The errors about the services of one file are their failures. -/
theorem errors_planningLog (source : Path) (services : List (Service TypeExpr)) :
    Log.errors (planningLog source services) =
      (failuresOf source services).map Failure.logEntry := by
  induction services with
  | nil => rfl
  | cons s services ih =>
      rw [planningLog, List.flatMap_cons, ← planningLog, Log.errors_append, Log.errors_append,
        Log.errors_of_quiet s.isQuiet_log, Log.errors_failures, ih, List.nil_append, failuresOf,
        failuresOf, List.flatMap_cons, List.map_append]

/-- The errors of a survey are its failures, as far as it has come. -/
theorem errors_survey (fs : FileSystem) (cwd : Path) (sources : List Path) :
    Log.errors (survey fs cwd sources).log =
      (survey fs cwd sources).failures.map Failure.logEntry := by
  -- By induction on the files; two kinds of failure end the survey and are no reports.
  induction sources with
  | nil => rfl
  | cons source sources ih =>
      rw [survey]
      rcases Document.load fs cwd source with (error | _ | count) | services
      · -- The report on a file is an error.
        simp only [Survey.withError, List.map_cons, ← ih]
        rfl
      · rfl
      · rfl
      · have hloaded : Log.errors [loadedEntry source services] = [] := rfl
        simp only [Survey.withServices]
        rw [← List.singleton_append, Log.errors_append, Log.errors_append, hloaded,
          List.nil_append, errors_planningLog, ih, List.map_append]

namespace Generation

/-- Writing reports no errors, however far it comes. -/
theorem isQuiet_writeAll (fs : FileSystem) (cwd : Path) (outputs : List Output) :
    Log.IsQuiet (writeAll fs cwd outputs).2.1 := by
  induction outputs generalizing fs with
  | nil => exact List.forall_mem_nil _
  | cons o outputs ih =>
      rw [writeAll]
      rcases writePlan fs cwd o with ⟨fs', _ | fault⟩
      · exact List.forall_mem_cons.2 ⟨Log.Level.noConfusion, ih fs'⟩
      · exact List.forall_mem_nil _

theorem isQuiet_finish (fs : FileSystem) (cwd : Path) (keepGoing : Bool) (d : Decision) :
    Log.IsQuiet (finish fs cwd keepGoing d).log := by
  rw [finish]
  split
  · exact List.forall_mem_nil _
  · have hwrite := isQuiet_writeAll fs cwd d.outputs
    rcases hresult : writeAll fs cwd d.outputs with ⟨fs', log, _ | fault⟩
    · rwa [hresult] at hwrite
    · rwa [hresult] at hwrite

/-- The errors of a run that nothing ends early are its failures, in their order. -/
theorem errors_generate (fs : FileSystem) (cwd : Path) (o : Options) (sources : List Path)
    (h : ∀ crash, (generate fs cwd o sources).ending ≠ .crashed crash) :
    Log.errors (generate fs cwd o sources).log =
      (failures fs cwd o sources).map Failure.logEntry := by
  rcases hcrash : (survey fs cwd sources).crash with _ | crash
  · have hnotice : Log.IsQuiet (if sources = [] then [nothingFoundEntry o.paths] else []) := by
      split
      · exact List.forall_mem_singleton.2 Log.Level.noConfusion
      · exact List.forall_mem_nil _
    -- Between the notice and what the writing reports stand the failures of both stages.
    simp only [generate, hcrash, settle_survey fs cwd o sources hcrash, Log.errors_append,
      Log.errors_of_quiet hnotice, Log.errors_of_quiet (isQuiet_finish fs cwd o.keepGoing _),
      errors_survey, (survey_eq_flatMap fs cwd sources hcrash).2.1, Log.errors_failures,
      List.nil_append, List.append_nil, failures, List.map_append]
  · simp only [generate, hcrash] at h
    exact absurd rfl (h crash)

end Generation

namespace CommandLine

open Generation

/-- What a call shows that starts a run with some settings. -/
def shownLog (fs : FileSystem) (cwd : Path) (o : Options) : List Log.Entry :=
  (logOf cwd (run fs cwd cwd o)).filter (Log.Entry.isShown o.verbose)

theorem exit_execute (fs : FileSystem) (cwd : Path) (words : List String) (o : Options)
    (h : parse words = .ok o) :
    (execute fs cwd words).exit = exitOf (run fs cwd cwd o).ending := by
  rw [execute, h]

theorem exitOf_endingOf (failures : List Failure) (keepGoing : Bool) :
    exitOf (endingOf failures keepGoing) = .code (if failures = [] then 0 else 1) := by
  rw [endingOf]
  split <;> rfl

/-- The run as a whole is reported exactly if it has failed. -/
theorem errors_logOf (cwd : Path) (outcome : Generation.Outcome) (failures : List Failure)
    (keepGoing : Bool) (h : outcome.ending = endingOf failures keepGoing) :
    Log.errors (logOf cwd outcome) = Log.errors outcome.log ++
      if failures = [] then [] else [failedEntry failures keepGoing] := by
  have hstart : Log.errors [startEntry cwd] = [] := rfl
  rw [logOf, ← List.singleton_append, Log.errors_append, Log.errors_append, hstart,
    List.nil_append, h, endingOf]
  by_cases hnone : failures = []
  · simp only [hnone, if_true]
    rfl
  · simp only [if_neg hnone]
    rfl

/-- A call that runs to its end shows one error for each failure, in the order in which
    they come up and in the words in which the run hands them on. If there is any, one more
    error follows, which says how many there are and repeats all of them. The other
    settings make no difference to this. -/
theorem execute_reports_failures (fs : FileSystem) (cwd : Path) (words : List String) (o : Options)
    (hparse : parse words = .ok o) (n : Nat) (hexit : (execute fs cwd words).exit = .code n) :
    ∃ obsolete cleaned sources,
      cleanPaths ⟨fs, cwd, o.recursive⟩ cwd (o.clean.map String.toList) = .ok obsolete ∧
      removeAll fs cwd obsolete = (cleaned, none) ∧
      Discovery.discover ⟨cleaned, cwd, o.recursive⟩ cwd (o.paths.map String.toList)
        (o.excludes.map String.toList) = .ok sources ∧
      failures cleaned cwd o sources = sources.flatMap (failuresIn cleaned cwd) ++
        (Output.collisions (assignments cleaned cwd o sources)).map Failure.collision ∧
      (run fs cwd cwd o).ending = endingOf (failures cleaned cwd o sources) o.keepGoing ∧
      n = (if failures cleaned cwd o sources = [] then 0 else 1) ∧
      (execute fs cwd words).errorOutput = unlines ((shownLog fs cwd o).map Log.Entry.text) ∧
      (Log.errors (shownLog fs cwd o)).map (·.message) =
        (failures cleaned cwd o sources).map Failure.message ++
          if failures cleaned cwd o sources = [] then []
          else ["Plan generation failed: " ++
            (toString (failures cleaned cwd o sources).length ++ " failure(s)" ++
              (if o.keepGoing then "" else ", no plans were written") ++ ":\n" ++
              "\n".intercalate ((failures cleaned cwd o sources).map Failure.message))] := by
  rw [exit_execute fs cwd words o hparse] at hexit
  -- An exit with a code is that of a run which is no crash.
  have hregular : ∀ crash, (run fs cwd cwd o).ending ≠ .crashed crash := by
    intro crash hcrash
    rw [hcrash] at hexit
    cases hexit
  rcases run_eq_generate fs cwd cwd o hregular with
    ⟨obsolete, cleaned, sources, hclean, hremove, hdiscover, hrun⟩
  rw [hrun] at hregular
  have hending := (generate_effect cleaned cwd o sources hregular).2.2.2
  rw [← hrun] at hending
  refine ⟨obsolete, cleaned, sources, hclean, hremove, hdiscover, rfl, hending, ?_, ?_, ?_⟩
  · rw [hending, exitOf_endingOf] at hexit
    cases hexit
    rfl
  · rw [execute, hparse]
    rfl
  · rw [shownLog, Log.errors_filter_isShown, errors_logOf cwd _ _ o.keepGoing hending, hrun,
      errors_generate cleaned cwd o sources hregular, List.map_append, List.map_map]
    -- The last error is there if there is something to repeat.
    by_cases hnone : failures cleaned cwd o sources = []
    · simp only [hnone, if_true]
      rfl
    · simp only [if_neg hnone]
      rfl

/-- A call that asks for everything to be logged and stops at failures of all kinds. -/
theorem execute_reports_failures_of_threeFates :
    let words := ["-v", "-p", "."]
    let o : Options := { Options.default with paths := ["."], verbose := true }
    let lines := [
      "/w/./a.conjure.json: Login: Endpoint 'get' uses cookie authentication, only header " ++
        "auth is supported",
      "/w/b.conjure.json: not a JSON document: Expecting value: line 1 column 2 (char 1)",
      "/w/./a.conjure.json: Store: plan file '/w/./Store.plan.json' is already written for the " ++
        "service from /w/./a.conjure.json"]
    parse words = .ok o ∧ (execute threeFates "/w".toList words).exit = .code 1 ∧
      (Log.errors (shownLog threeFates "/w".toList o)).map (·.message) =
        lines ++ ["Plan generation failed: 3 failure(s), no plans were written:\n" ++
          "\n".intercalate lines] := by
  intro words o lines
  have hparse : parse words = .ok o := by decide
  have hending : (run threeFates "/w".toList "/w".toList o).ending =
      .failed [
        .endpoint "/w/./a.conjure.json".toList "Login" (.invalidAuth "get" .cookie),
        .load ⟨some "/w/b.conjure.json".toList, .noJson ['['] .value 1⟩,
        .collision ⟨⟨"/w/./a.conjure.json".toList, ⟨⟨"Store", some "shop", []⟩, []⟩⟩,
          "/w/./Store".toList,
          ⟨"/w/./a.conjure.json".toList, ⟨⟨"Store", none, []⟩, []⟩⟩⟩] false := by
    decide +kernel
  have hexit : (execute threeFates "/w".toList words).exit = .code 1 := by
    rw [exit_execute _ _ _ _ hparse, hending]
    rfl
  rcases execute_reports_failures threeFates "/w".toList words o hparse 1 hexit with
    ⟨_, cleaned, sources, -, -, -, -, hends, -, -, herrors⟩
  -- The failures are those that the run ends with.
  rw [hending, endingOf] at hends
  split at hends
  · cases hends
  · rw [← (Ending.failed.inj hends).1] at herrors
    exact ⟨hparse, hexit, herrors.trans (by decide +kernel)⟩

end CommandLine

end ClientPlan
