import ClientPlan.Proofs.Generation.Assignment
import ClientPlan.Proofs.Generation.Effect
import ClientPlan.Proofs.Planning.Positions

/-!
# The Account of Services

What a run makes of each service that is declared to it.

A declared service has no plan, or the key of its file is claimed by an earlier one, or
its plan is written. Keys are what claims are compared by; two files can share one, and one
file can have two. `Ends` says which of the three it is by looking at the services
declared in front of it, those without a plan being passed over. The outputs and the
collisions of a run are what the positions say, in their order, so none is left out
and none counts twice.

Failures are counted by where they come from: a file that gives no services is one,
a service without a plan is one for each endpoint that fails, and a collision is one.

## Main definitions

* `Declared`: A service with the file that declares it.
* `Fate`, `Ends`: What becomes of it, and the rules for that.
* `fate`, `fates`: What becomes of the service at each position.
* `Account`: How services and failures add up.

## Theorems

* `ends_iff_fate`: The rules decide every service.
* `assign_fates`: Assignments are what becomes of the services that have a plan.
* `length_failures`: The failures by where they come from.
* `account_fates`: The account of some definition files.
* `run_accounts`: The account of a run.
-/

namespace ClientPlan

namespace Generation

/-- A service with the definition file that declares it. -/
structure Declared where
  source : Path
  service : Service TypeExpr
  deriving DecidableEq, Repr

namespace Declared

/-- The plan of a declared service, if it has one. -/
def planned? (d : Declared) : Option PlannedService :=
  match d.service.plan with
  | .ok plan => some ⟨d.source, plan⟩
  | .error _ => none

/-- The failures of the endpoints of a declared service. -/
def failures (d : Declared) : List Failure :=
  d.service.failures d.source

end Declared

/-- What becomes of a declared service. -/
inductive Fate where
  /-- It has no plan. -/
  | refused (error : ServiceError)
  /-- The key of its file is claimed by an earlier service. -/
  | collided (c : Collision)
  | written (o : Output)
  deriving DecidableEq, Repr

/-- The assignment that a fate is, if there is a plan. -/
def Fate.assignment? : Fate → Option Assignment
  | .refused _ => none
  | .collided c => some (.collision c)
  | .written o => some (.output o)

/-- The output that a fate is, if it is one. -/
def Fate.output? : Fate → Option Output
  | .written o => some o
  | _ => none

/-- The collision that a fate is, if it is one. -/
def Fate.collision? : Fate → Option Collision
  | .collided c => some c
  | _ => none

section Fates

variable (cwd outputDir : Path) (base : Option Path)

/-- What becomes of a declared service when some others are declared in front of it.
    A service collides with the first one whose file has the same key. -/
inductive Ends (before : List Declared) (d : Declared) : Fate → Prop
  | refused {error : ServiceError} (unplanned : d.service.plan = .error error) :
      Ends before d (.refused error)
  | collided {plan : ServicePlan} {front rest : List Declared} {first : Declared}
      {earlier : PlannedService} (planned : d.service.plan = .ok plan)
      (split : before = front ++ first :: rest) (keeps : first.planned? = some earlier)
      (same : Output.keyOf cwd outputDir base earlier =
        Output.keyOf cwd outputDir base ⟨d.source, plan⟩)
      (new : ∀ other ∈ front.filterMap Declared.planned?,
        Output.keyOf cwd outputDir base other ≠
          Output.keyOf cwd outputDir base ⟨d.source, plan⟩) :
      Ends before d (.collided
        ⟨⟨d.source, plan⟩, Output.pathOf cwd outputDir base ⟨d.source, plan⟩, earlier⟩)
  | written {plan : ServicePlan} (planned : d.service.plan = .ok plan)
      (new : ∀ other ∈ before.filterMap Declared.planned?,
        Output.keyOf cwd outputDir base other ≠
          Output.keyOf cwd outputDir base ⟨d.source, plan⟩) :
      Ends before d (.written
        ⟨Output.pathOf cwd outputDir base ⟨d.source, plan⟩, ⟨d.source, plan⟩⟩)

/-- The fate that an assignment is. -/
def Fate.ofAssignment : Assignment → Fate
  | .output o => .written o
  | .collision c => .collided c

/-- What becomes of a declared service behind some others, computed. -/
def fate (before : List Declared) (d : Declared) : Fate :=
  match d.service.plan with
  | .error error => .refused error
  | .ok plan =>
    .ofAssignment
      (Output.assignment cwd outputDir base (before.filterMap Declared.planned?) ⟨d.source, plan⟩)

/-- What becomes of the service at each position. -/
def fates (declared : List Declared) : List Fate :=
  declared.mapIdx fun i d => fate cwd outputDir base (declared.take i) d

variable {cwd outputDir base}

/-- The first service whose file has a given key, found among those that have a plan, is
    the first one declared with such a plan. -/
theorem keeper?_eq_some_iff (before : List Declared) (file : Path) (earlier : PlannedService) :
    Output.keeper? cwd outputDir base (before.filterMap Declared.planned?) file = some earlier ↔
      ∃ front first rest, before = front ++ first :: rest ∧ first.planned? = some earlier ∧
        Output.keyOf cwd outputDir base earlier = file ∧
        ∀ other ∈ front.filterMap Declared.planned?,
          Output.keyOf cwd outputDir base other ≠ file := by
  rw [Output.keeper?, List.find?_eq_some_iff_append]
  simp only [decide_eq_true_eq, Bool.not_eq_true', decide_eq_false_iff_not]
  constructor
  · rintro ⟨hkey, as, bs, hsplit, hnew⟩
    rcases List.filterMap_eq_append_iff.1 hsplit with ⟨front, behind, rfl, rfl, hbehind⟩
    rcases List.filterMap_eq_cons_iff.1 hbehind with ⟨skipped, first, rest, rfl, hnone, hfirst, -⟩
    -- What stands between has no plan, so it belongs to the front.
    refine ⟨front ++ skipped, first, rest, by rw [List.append_assoc], hfirst, hkey, ?_⟩
    intro other hother
    rw [List.filterMap_append, List.filterMap_eq_nil_iff.2 hnone, List.append_nil] at hother
    exact hnew other hother
  · rintro ⟨front, first, rest, rfl, hfirst, hkey, hnew⟩
    refine ⟨hkey, front.filterMap Declared.planned?, rest.filterMap Declared.planned?, ?_, hnew⟩
    rw [List.filterMap_append, List.filterMap_cons_some hfirst]

theorem keeper?_eq_none_iff (before : List PlannedService) (file : Path) :
    Output.keeper? cwd outputDir base before file = none ↔
      ∀ other ∈ before, Output.keyOf cwd outputDir base other ≠ file := by
  rw [Output.keeper?, List.find?_eq_none]
  simp only [decide_eq_true_eq, ne_eq]

/-- The rules decide every service, and in one way only. -/
theorem ends_iff_fate (before : List Declared) (d : Declared) (f : Fate) :
    Ends cwd outputDir base before d f ↔ f = fate cwd outputDir base before d := by
  constructor
  · intro h
    cases h with
    | refused unplanned => rw [fate, unplanned]
    | collided planned split keeps same new =>
        -- The first service with the key is what the search comes upon.
        have hkeeper := (keeper?_eq_some_iff before _ _).2 ⟨_, _, _, split, keeps, same, new⟩
        rw [fate, planned]
        simp only [Output.assignment, hkeeper, Fate.ofAssignment]
    | written planned new =>
        have hkeeper := (keeper?_eq_none_iff _ _).2 new
        rw [fate, planned]
        simp only [Output.assignment, hkeeper, Fate.ofAssignment]
  · rintro rfl
    rcases hplan : d.service.plan with error | plan
    · rw [fate, hplan]
      exact .refused hplan
    · rw [fate, hplan]
      rcases hkeeper : Output.keeper? cwd outputDir base (before.filterMap Declared.planned?)
        (Output.keyOf cwd outputDir base ⟨d.source, plan⟩) with _ | earlier
      · simp only [Output.assignment, hkeeper, Fate.ofAssignment]
        exact .written hplan ((keeper?_eq_none_iff _ _).1 hkeeper)
      · rcases (keeper?_eq_some_iff before _ _).1 hkeeper with
          ⟨front, first, rest, split, keeps, same, new⟩
        simp only [Output.assignment, hkeeper, Fate.ofAssignment]
        exact .collided hplan split keeps same new

theorem assignment?_ofAssignment (a : Assignment) :
    (Fate.ofAssignment a).assignment? = some a := by
  cases a <;> rfl

/-- The services without a plan take no part: the assignments at the positions of the
    others, in front of which some services have passed, are their fates. -/
theorem filterMap_assignment?_fates (declared before : List Declared) :
    (declared.mapIdx fun i d =>
        fate cwd outputDir base (before ++ declared.take i) d).filterMap Fate.assignment? =
      (declared.filterMap Declared.planned?).mapIdx fun i p =>
        Output.assignment cwd outputDir base (before.filterMap Declared.planned? ++
          (declared.filterMap Declared.planned?).take i) p := by
  induction declared generalizing before with
  | nil => rfl
  | cons d declared ih =>
      have hbefore : ∀ i, before ++ (d :: declared).take (i + 1) =
          before ++ [d] ++ declared.take i :=
        fun i => by rw [List.take_succ_cons, List.append_cons]
      simp only [List.mapIdx_cons, List.take_zero, List.append_nil, hbefore]
      rcases hplan : d.service.plan with error | plan
      · -- Without a plan, a service is passed over on both sides.
        have hnone : d.planned? = none := by
          rw [Declared.planned?, hplan]
        have hfate : (fate cwd outputDir base before d).assignment? = none := by
          rw [fate, hplan]
          rfl
        rw [List.filterMap_cons_none hfate, ih (before ++ [d]), List.filterMap_cons_none hnone,
          List.filterMap_append, List.filterMap_cons_none hnone, List.filterMap_nil,
          List.append_nil]
      · have hsome : d.planned? = some ⟨d.source, plan⟩ := by
          rw [Declared.planned?, hplan]
        have hfate : (fate cwd outputDir base before d).assignment? =
            some (Output.assignment cwd outputDir base (before.filterMap Declared.planned?)
              ⟨d.source, plan⟩) := by
          rw [fate, hplan]
          exact assignment?_ofAssignment _
        -- The plan joins those that the later ones have in front of them.
        have hplanned : ∀ i, before.filterMap Declared.planned? ++
            (⟨d.source, plan⟩ :: declared.filterMap Declared.planned?).take (i + 1) =
              (before ++ [d]).filterMap Declared.planned? ++
                (declared.filterMap Declared.planned?).take i := by
          intro i
          rw [List.take_succ_cons, List.append_cons, List.filterMap_append,
            List.filterMap_cons_some hsome, List.filterMap_nil]
        rw [List.filterMap_cons_some hfate, ih (before ++ [d]), List.filterMap_cons_some hsome]
        simp only [List.mapIdx_cons, List.take_zero, List.append_nil, hplanned]

/-- Assignments are what becomes of the services that have a plan. -/
theorem assign_fates (declared : List Declared) :
    Output.assign cwd outputDir base (declared.filterMap Declared.planned?) =
      (fates cwd outputDir base declared).filterMap Fate.assignment? := by
  have h := @filterMap_assignment?_fates cwd outputDir base declared []
  simp only [List.nil_append, List.filterMap_nil] at h
  rw [Output.assign_eq_mapIdx, fates, h]

theorem outputs_fates (declared : List Declared) :
    Output.outputs (Output.assign cwd outputDir base (declared.filterMap Declared.planned?)) =
      (fates cwd outputDir base declared).filterMap Fate.output? := by
  rw [Output.outputs_eq_filterMap, assign_fates, List.filterMap_filterMap]
  refine List.filterMap_congr fun f _ => ?_
  cases f <;> rfl

theorem collisions_fates (declared : List Declared) :
    Output.collisions (Output.assign cwd outputDir base (declared.filterMap Declared.planned?)) =
      (fates cwd outputDir base declared).filterMap Fate.collision? := by
  rw [Output.collisions_eq_filterMap, assign_fates, List.filterMap_filterMap]
  refine List.filterMap_congr fun f _ => ?_
  cases f <;> rfl

end Fates

/-- The services that a definition file declares, in order. -/
def declaredIn (fs : FileSystem) (cwd source : Path) : List Declared :=
  match Document.load fs cwd source with
  | .ok services => services.map (Declared.mk source)
  | .error _ => []

/-- The report on a definition file that gives no services. -/
def reportIn? (fs : FileSystem) (cwd source : Path) : Option DefinitionError :=
  match Document.load fs cwd source with
  | .error (.definition error) => some error
  | _ => none

/-- The failures that a fate is, for the service that it is the fate of. A collision
    is counted apart. -/
def Fate.refusals (d : Declared) : Fate → List Failure
  | .refused error => error.errors.map (Failure.endpoint d.source d.service.name)
  | _ => []

/-- How the services and the failures of some definition files add up. -/
structure Account (fs : FileSystem) (cwd : Path) (o : Options) (sources : List Path)
    (fates : List Fate) : Prop where
  /-- A file is reported on and declares nothing, or it declares its services. -/
  file : ∀ source ∈ sources,
    (∃ error, Document.load fs cwd source = .error (.definition error) ∧
      reportIn? fs cwd source = some error ∧ declaredIn fs cwd source = []) ∨
    ∃ services, Document.load fs cwd source = .ok services ∧
      reportIn? fs cwd source = none ∧
      declaredIn fs cwd source = services.map (Declared.mk source)
  /-- Each service ends in one way, and that way says which failures it is. -/
  position : ∀ (i : Nat) d, (sources.flatMap (declaredIn fs cwd))[i]? = some d →
    ∃ f, fates[i]? = some f ∧ d.failures = f.refusals d ∧
      ∀ f', Ends cwd o.outputPath (commonBase cwd sources)
        ((sources.flatMap (declaredIn fs cwd)).take i) d f' ↔ f' = f
  length : fates.length = (sources.flatMap (declaredIn fs cwd)).length
  /-- A service that has no plan has a failure to show for it. -/
  refused : ∀ error, .refused error ∈ fates → error.errors ≠ []
  named : ∀ d ∈ sources.flatMap (declaredIn fs cwd), ∀ line ∈ d.failures, ∃ rest,
    line.message = String.ofList d.source ++ ": " ++ d.service.name ++ ": " ++ rest
  /-- The service that keeps a file is written to it. -/
  kept : ∀ c, .collided c ∈ fates →
    ∃ w, .written w ∈ fates ∧ w.planned = c.earlier ∧ Output.key cwd w.path = Output.key cwd c.path
  outputs : Output.outputs (assignments fs cwd o sources) = fates.filterMap Fate.output?
  collisions : Output.collisions (assignments fs cwd o sources) = fates.filterMap Fate.collision?
  /-- Every plan is an output or a collision. -/
  planned : (fates.filterMap Fate.output?).length + (fates.filterMap Fate.collision?).length =
    ((sources.flatMap (declaredIn fs cwd)).filterMap Declared.planned?).length
  /-- No two outputs share a path, and no plan is written to two of them. -/
  paths : ((fates.filterMap Fate.output?).map (·.path)).Nodup
  once : ((fates.filterMap Fate.output?).map (·.planned)).Nodup
  /-- The failures are the reports and those of the services, file by file, and then
      the collisions. -/
  failures : failures fs cwd o sources =
    (sources.flatMap fun source =>
      (reportIn? fs cwd source).toList.map Failure.load ++
        (declaredIn fs cwd source).flatMap Declared.failures) ++
      (fates.filterMap Fate.collision?).map Failure.collision
  /-- The message about the failures says how many of each kind there are together. -/
  counted : ∀ keptGoing, failureMessage (Generation.failures fs cwd o sources) keptGoing =
    toString ((sources.filterMap (reportIn? fs cwd)).length +
      ((sources.flatMap (declaredIn fs cwd)).flatMap Declared.failures).length +
      (fates.filterMap Fate.collision?).length) ++ " failure(s)" ++
        (if keptGoing then "" else ", no plans were written") ++ ":\n" ++
        "\n".intercalate ((Generation.failures fs cwd o sources).map Failure.message)

theorem plansIn_eq_filterMap (fs : FileSystem) (cwd source : Path) :
    plansIn fs cwd source = (declaredIn fs cwd source).filterMap Declared.planned? := by
  unfold plansIn declaredIn
  rcases Document.load fs cwd source with failure | services
  · rfl
  · simp only [plannedOf, List.filterMap_map]
    rfl

theorem failuresIn_eq_append (fs : FileSystem) (cwd source : Path) :
    failuresIn fs cwd source =
      (reportIn? fs cwd source).toList.map Failure.load ++
        (declaredIn fs cwd source).flatMap Declared.failures := by
  unfold failuresIn reportIn? declaredIn
  rcases Document.load fs cwd source with (error | _ | count) | services
  · rfl
  · rfl
  · rfl
  · simp only [failuresOf, Option.toList_none, List.map_nil, List.nil_append, List.flatMap_map]
    rfl

/-- A service without a plan has at least one failure, and all of them name it. -/
theorem failures_of_plan_error (d : Declared) (error : ServiceError)
    (h : d.service.plan = .error error) :
    d.failures = error.errors.map (Failure.endpoint d.source d.service.name) ∧
      error.errors ≠ [] := by
  rw [Declared.failures, Service.failures, h]
  rw [Service.plan_eq] at h
  split at h
  · cases h
  · rename_i hsome
    cases h
    exact ⟨rfl, hsome⟩

theorem exists_plan_of_planned? {d : Declared} {p : PlannedService} (h : d.planned? = some p) :
    ∃ plan, d.service.plan = .ok plan ∧ p = ⟨d.source, plan⟩ := by
  rw [Declared.planned?] at h
  split at h
  · rename_i plan hplan
    exact ⟨plan, hplan, (Option.some.inj h).symm⟩
  · cases h

theorem failures_of_plan (d : Declared) (plan : ServicePlan) (h : d.service.plan = .ok plan) :
    d.failures = [] := by
  rw [Declared.failures, Service.failures, h]

theorem failures_eq_refusals (cwd outputDir : Path) (base : Option Path) (before : List Declared)
    (d : Declared) (f : Fate) (h : Ends cwd outputDir base before d f) :
    d.failures = f.refusals d := by
  cases h with
  | refused unplanned => exact (failures_of_plan_error d _ unplanned).1
  | collided planned _ _ _ _ => exact failures_of_plan d _ planned
  | written planned _ => exact failures_of_plan d _ planned

/-- The failures, counted by where they come from. -/
theorem length_flatMap_failuresIn (fs : FileSystem) (cwd : Path) (sources : List Path) :
    (sources.flatMap (failuresIn fs cwd)).length =
      (sources.filterMap (reportIn? fs cwd)).length +
        ((sources.flatMap (declaredIn fs cwd)).flatMap Declared.failures).length := by
  induction sources with
  | nil => rfl
  | cons source sources ih =>
      rw [List.flatMap_cons, List.length_append, ih, failuresIn_eq_append, List.flatMap_cons,
        List.flatMap_append, List.length_append, List.length_append, List.length_map]
      -- A report is one failure more, and what is declared adds its own.
      rcases hreport : reportIn? fs cwd source with _ | error
      · rw [List.filterMap_cons_none hreport, Option.toList_none, List.length_nil]
        omega
      · rw [List.filterMap_cons_some hreport, Option.toList_some, List.length_cons,
          List.length_cons, List.length_nil]
        omega

/-- What the rules say of a position is what stands at it. -/
theorem getElem?_fates (cwd outputDir : Path) (base : Option Path) (declared : List Declared)
    (i : Nat) (d : Declared) (hd : declared[i]? = some d) (f : Fate)
    (h : Ends cwd outputDir base (declared.take i) d f) :
    (fates cwd outputDir base declared)[i]? = some f := by
  rw [fates, List.getElem?_mapIdx, hd, Option.map_some, (ends_iff_fate _ d f).1 h]

theorem exists_of_mem_fates (cwd outputDir : Path) (base : Option Path) (declared : List Declared)
    (f : Fate) (h : f ∈ fates cwd outputDir base declared) :
    ∃ i d, declared[i]? = some d ∧ Ends cwd outputDir base (declared.take i) d f := by
  rcases List.mem_iff_getElem?.1 h with ⟨i, hi⟩
  rw [fates, List.getElem?_mapIdx] at hi
  rcases Option.map_eq_some_iff.1 hi with ⟨d, hd, hf⟩
  exact ⟨i, d, hd, (ends_iff_fate _ d f).2 hf.symm⟩

/-- The service that a collision is with is written: no one in front of it has the
    file. -/
theorem written_of_collided (cwd outputDir : Path) (base : Option Path) (declared : List Declared)
    (c : Collision) (h : .collided c ∈ fates cwd outputDir base declared) :
    ∃ w, .written w ∈ fates cwd outputDir base declared ∧ w.planned = c.earlier ∧
      Output.key cwd w.path = Output.key cwd c.path := by
  rcases exists_of_mem_fates cwd outputDir base declared _ h with ⟨i, d, hd, hends⟩
  cases hends with
  | collided planned split keeps same new =>
      rename_i plan front rest first earlier
      -- The first service with the file stands right behind the front.
      have hdeclared : declared = front ++ first :: (rest ++ declared.drop i) := by
        calc declared = declared.take i ++ declared.drop i :=
            (List.take_append_drop i declared).symm
          _ = front ++ first :: (rest ++ declared.drop i) := by
            rw [split, List.append_assoc, List.cons_append]
      have hfirst : declared[front.length]? = some first := by
        rw [hdeclared, List.getElem?_append_right (Nat.le_refl _), Nat.sub_self,
          List.getElem?_cons_zero]
      have htake : declared.take front.length = front := by
        rw [hdeclared, List.take_left]
      rcases exists_plan_of_planned? keeps with ⟨kept, hkept, rfl⟩
      have hwritten : Ends cwd outputDir base (declared.take front.length) first (.written
          ⟨Output.pathOf cwd outputDir base ⟨first.source, kept⟩, ⟨first.source, kept⟩⟩) := by
        rw [htake]
        exact .written hkept fun other hother => by rw [same]; exact new other hother
      have hmem := getElem?_fates cwd outputDir base declared _ first hfirst _ hwritten
      exact ⟨_, List.mem_of_getElem? hmem, rfl, same⟩

/-- The account of some definition files that are loaded or reported on. -/
theorem account_fates (fs : FileSystem) (cwd : Path) (o : Options) (sources : List Path)
    (h : ∀ source ∈ sources, LoadsOrReports fs cwd source) :
    Account fs cwd o sources
      (fates cwd o.outputPath (commonBase cwd sources) (sources.flatMap (declaredIn fs cwd))) := by
  -- What is assigned are the plans of what is declared.
  have hassignments : assignments fs cwd o sources =
      Output.assign cwd o.outputPath (commonBase cwd sources)
        ((sources.flatMap (declaredIn fs cwd)).filterMap Declared.planned?) := by
    rw [assignments, List.filterMap_flatMap, funext (plansIn_eq_filterMap fs cwd)]
  have houtputs : Output.outputs (assignments fs cwd o sources) = (fates cwd o.outputPath
      (commonBase cwd sources) (sources.flatMap (declaredIn fs cwd))).filterMap Fate.output? := by
    rw [hassignments, outputs_fates]
  have hcollisions : Output.collisions (assignments fs cwd o sources) = (fates cwd o.outputPath
      (commonBase cwd sources) (sources.flatMap (declaredIn fs cwd))).filterMap
        Fate.collision? := by
    rw [hassignments, collisions_fates]
  have hfailures : failures fs cwd o sources = sources.flatMap (failuresIn fs cwd) ++
      ((fates cwd o.outputPath (commonBase cwd sources)
        (sources.flatMap (declaredIn fs cwd))).filterMap Fate.collision?).map
          Failure.collision := by
    rw [failures, hcollisions]
  constructor
  case file =>
    intro source hsource
    rcases h source hsource with ⟨services, hload⟩ | ⟨error, hload⟩
    · exact Or.inr ⟨services, hload, by rw [reportIn?, hload], by rw [declaredIn, hload]⟩
    · exact Or.inl ⟨error, hload, by rw [reportIn?, hload], by rw [declaredIn, hload]⟩
  case position =>
    intro i d hd
    have hends := (@ends_iff_fate cwd o.outputPath (commonBase cwd sources)
      ((sources.flatMap (declaredIn fs cwd)).take i) d _).2 rfl
    exact ⟨_, getElem?_fates _ _ _ _ i d hd _ hends, failures_eq_refusals _ _ _ _ d _ hends,
      fun f' => ends_iff_fate _ d f'⟩
  case length => rw [fates, List.length_mapIdx]
  case refused =>
    intro error hmem
    rcases exists_of_mem_fates _ _ _ _ _ hmem with ⟨_, d, -, hends⟩
    cases hends with
    | refused unplanned => exact (failures_of_plan_error d error unplanned).2
  case named =>
    intro d _ line hline
    rcases hplan : d.service.plan with error | plan
    · rw [(failures_of_plan_error d error hplan).1] at hline
      rcases List.mem_map.1 hline with ⟨e, -, rfl⟩
      exact ⟨e.message, rfl⟩
    · rw [failures_of_plan d plan hplan] at hline
      cases hline
  case kept => exact written_of_collided _ _ _ _
  case outputs => exact houtputs
  case collisions => exact hcollisions
  case planned =>
    rw [← houtputs, ← hcollisions, hassignments, Output.length_outputs_add_length_collisions,
      Output.assign, Output.length_assignAfter]
  case paths =>
    rw [← houtputs, hassignments]
    exact Output.paths_outputs_nodup _ _ _ _
  case once =>
    rw [← houtputs, hassignments]
    exact Output.planned_outputs_nodup _ _ _ _
  case failures =>
    rw [hfailures, funext (failuresIn_eq_append fs cwd)]
  case counted =>
    intro keptGoing
    rw [failureMessage, ← length_flatMap_failuresIn, ← List.length_map (f := Failure.collision),
      ← List.length_append, ← hfailures]

/-- A run that nothing has ended early accounts for every service in the definition
    files that it finds. What it writes are the outputs among the fates. -/
theorem run_accounts (fs : FileSystem) (cwd root : Path) (o : Options)
    (h : ∀ crash, (run fs cwd root o).ending ≠ .crashed crash) :
    ∃ obsolete cleaned sources fates,
      cleanPaths ⟨fs, cwd, o.recursive⟩ root (o.clean.map String.toList) = .ok obsolete ∧
      removeAll fs cwd obsolete = (cleaned, none) ∧
      Discovery.discover ⟨cleaned, cwd, o.recursive⟩ root (o.paths.map String.toList)
        (o.excludes.map String.toList) = .ok sources ∧
      sources.Nodup ∧
      Account cleaned cwd o sources fates ∧
      (failures cleaned cwd o sources = [] ∨ o.keepGoing = true →
        Written cwd cleaned (run fs cwd root o).fs (fates.filterMap Fate.output?)) ∧
      (failures cleaned cwd o sources ≠ [] → o.keepGoing = false →
        (run fs cwd root o).fs = cleaned) ∧
      (run fs cwd root o).ending = endingOf (failures cleaned cwd o sources) o.keepGoing := by
  rcases run_eq_generate fs cwd root o h with
    ⟨obsolete, cleaned, sources, hclean, hremove, hdiscover, hrun⟩
  rw [hrun] at h ⊢
  rcases generate_effect cleaned cwd o sources h with ⟨hloads, huntouched, hwritten, hending⟩
  have haccount := account_fates cleaned cwd o sources hloads
  rw [haccount.outputs] at hwritten
  -- A path does not come before itself, so none is found twice.
  have hnodup : sources.Nodup := by
    refine (Discovery.discover_ascending _ root _ _ sources hdiscover).imp ?_
    rintro p _ hbefore rfl
    rw [Discovery.comesBefore_irrefl] at hbefore
    exact Bool.false_ne_true hbefore
  exact ⟨obsolete, cleaned, sources, _, hclean, hremove, hdiscover, hnodup, haccount, hwritten,
    huntouched, hending⟩

/-- A directory with a definition file that declares one service twice and another
    one that cannot be planned, and with a definition file that is cut off. -/
def threeFates : FileSystem where
  entries := [
    (["w".toList], .directory),
    (["w".toList, "a.conjure.json".toList],
      .file (Utf8.encode (Document.encode [
        ⟨"Store", none, []⟩,
        ⟨"Store", some "shop", []⟩,
        ⟨"Login", none, [⟨"get", [], none, some .cookie, "GET", "/"⟩]⟩]).render)),
    (["w".toList, "b.conjure.json".toList], .file (Utf8.encode ['[']))]

theorem run_accounts_of_threeFates :
    (∀ crash, (run threeFates "/w".toList "/w".toList keepGoingHere).ending ≠ .crashed crash) ∧
      ∃ obsolete cleaned sources fates,
        cleanPaths ⟨threeFates, "/w".toList, false⟩ "/w".toList ["old.plan.json".toList] =
          .ok obsolete ∧
        removeAll threeFates "/w".toList obsolete = (cleaned, none) ∧
        Discovery.discover ⟨cleaned, "/w".toList, false⟩ "/w".toList [".".toList] [] =
          .ok sources ∧
        sources.Nodup ∧
        Account cleaned "/w".toList keepGoingHere sources fates ∧
        Written "/w".toList cleaned (run threeFates "/w".toList "/w".toList keepGoingHere).fs
          (fates.filterMap Fate.output?) := by
  have hending : (run threeFates "/w".toList "/w".toList keepGoingHere).ending =
      .failed [
        .endpoint "/w/./a.conjure.json".toList "Login" (.invalidAuth "get" .cookie),
        .load ⟨some "/w/b.conjure.json".toList, .noJson ['['] .value 1⟩,
        .collision ⟨⟨"/w/./a.conjure.json".toList, ⟨⟨"Store", some "shop", []⟩, []⟩⟩,
          "/w/./Store".toList,
          ⟨"/w/./a.conjure.json".toList, ⟨⟨"Store", none, []⟩, []⟩⟩⟩] true := by
    decide +kernel
  -- It fails, which is no crash.
  have hregular : ∀ crash,
      (run threeFates "/w".toList "/w".toList keepGoingHere).ending ≠ .crashed crash := by
    intro crash
    rw [hending]
    exact Ending.noConfusion
  rcases run_accounts threeFates "/w".toList "/w".toList keepGoingHere hregular with
    ⟨obsolete, cleaned, sources, fates, hclean, hremove, hdiscover, hnodup, haccount, hwritten,
      -, -⟩
  exact ⟨hregular, obsolete, cleaned, sources, fates, hclean, hremove, hdiscover, hnodup, haccount,
    hwritten (Or.inr rfl)⟩

end Generation

end ClientPlan
