import ClientPlan.Proofs.Document.Fields
import ClientPlan.Proofs.Document.Loading
import ClientPlan.Proofs.Generation.Account
import ClientPlan.Proofs.Generation.Clearance
import ClientPlan.Proofs.Generation.Interruption
import ClientPlan.Proofs.Generation.Sources

/-!
# Runs That Keep Going

What a run that keeps going does for a service whatever else fails.

A definition file that gives no services, a service without a plan and a collision
are failures, and a run that was asked to keep going passes them over. So a service
that has a plan and the first claim on its file is written, if the outputs in front of
it can be: they are written first, and a fault would end the run before this one is
reached. What is behind it does not matter, because a plan file that stands there is
not touched again unless another plan goes to the same place.

Two things in a definition file are not a failure of that file. An integer with too many
digits ends the whole run: `exists_run_stopped_by_digits` has such a file next to a good
one. And a string need not be text, while the name of a file has to be. Such a string is
replaced when it is read, so nothing is known here of what becomes of a service with such
a name, and of those that are written behind it.

## Main definitions

* `Harmless`: Definition files that hold neither, as far as it matters for one service.

## Theorems

* `loadsOrReports_of_mem_discover`: What a definition file that is found can do to the
  survey.
* `exists_fates_append`: The fate of a service, with what is in front of it.
* `run_writes_service`: A run that keeps going writes the service.
* `exists_run_stopped_by_digits`: A run that keeps going can leave out a good service.
-/

namespace ClientPlan

namespace Generation

/-- Files that are loaded or reported on do not end a survey. -/
theorem crash_survey_of_loads (fs : FileSystem) (cwd : Path) (sources : List Path)
    (h : ∀ source ∈ sources, LoadsOrReports fs cwd source) :
    (survey fs cwd sources).crash = none := by
  induction sources with
  | nil => rfl
  | cons source sources ih =>
      have hrest := ih fun other hother => h other (List.mem_cons_of_mem source hother)
      rcases h source List.mem_cons_self with ⟨services, hload⟩ | ⟨error, hload⟩
      · simp only [survey, hload, Survey.withServices, hrest]
      · simp only [survey, hload, Survey.withError, hrest]

/-- A definition file that is found is loaded or reported on, unless an integer in it is
    too long. -/
theorem loadsOrReports_of_mem_discover (s : Glob.Search) (h : s.fs.WellFormed) (root : Path)
    (paths exclusions sources : List Path)
    (hdiscover : Discovery.discover s root paths exclusions = .ok sources) (source : Path)
    (hsource : source ∈ sources)
    (hdigits : ∀ count, Document.load s.fs s.cwd source ≠ .error (.tooManyDigits count)) :
    LoadsOrReports s.fs s.cwd source := by
  -- The path leads to the file, so there is no NUL character in it.
  have hleads := Discovery.leads_of_mem_discover s h root paths exclusions sources hdiscover
    source hsource
  have hnul := Document.load_ne_nulInPath s.fs s.cwd source
    (FileSystem.nul_notMem_of_leads s.fs h s.cwd source hleads)
  rcases hload : Document.load s.fs s.cwd source with (error | _ | count) | services
  · exact Or.inr ⟨error, hload⟩
  · exact absurd hload hnul
  · exact absurd hload (hdigits count)
  · exact Or.inl ⟨services, hload⟩

/-- The fates of some services, with those in front of one of them and behind it. -/
theorem exists_fates_append (cwd outputDir : Path) (base : Option Path)
    (before after : List Declared) (d : Declared) :
    ∃ rest, fates cwd outputDir base (before ++ d :: after) =
      fates cwd outputDir base before ++ fate cwd outputDir base before d :: rest := by
  refine ⟨after.mapIdx fun i other =>
    fate cwd outputDir base ((before ++ d :: after).take (i + 1 + before.length)) other, ?_⟩
  have hfront : (before.mapIdx fun i other =>
      fate cwd outputDir base ((before ++ d :: after).take i) other) =
        fates cwd outputDir base before := by
    refine List.mapIdx_eq_mapIdx_iff.2 fun i hi => ?_
    rw [List.take_append_of_le_length (Nat.le_of_lt hi)]
  rw [fates, List.mapIdx_append, List.mapIdx_cons, hfront, Nat.zero_add, List.take_left]

/-- The outputs of some definition files, with those in front of one of them and
    behind it. -/
theorem exists_outputs_append (fs : FileSystem) (cwd : Path) (o : Options) (sources : List Path)
    (before after : List Declared) (d : Declared) (out : Output)
    (hloads : ∀ source ∈ sources, LoadsOrReports fs cwd source)
    (hdeclared : sources.flatMap (declaredIn fs cwd) = before ++ d :: after)
    (hends : Ends cwd o.outputPath (commonBase cwd sources) before d (.written out)) :
    ∃ rest, Output.outputs (assignments fs cwd o sources) =
      (fates cwd o.outputPath (commonBase cwd sources) before).filterMap Fate.output? ++
        [out] ++ rest := by
  -- What comes later does not change the fate of a service.
  rcases exists_fates_append cwd o.outputPath (commonBase cwd sources) before after d with
    ⟨rest, hrest⟩
  have hfate := (ends_iff_fate before d _).1 hends
  have hout : Fate.output? (.written out) = some out := rfl
  refine ⟨rest.filterMap Fate.output?, ?_⟩
  rw [(account_fates fs cwd o sources hloads).outputs, hdeclared, hrest, ← hfate,
    List.filterMap_append, List.filterMap_cons_some hout, List.append_assoc,
    List.singleton_append]

/-- The plan of an output with nothing in its way, nor in that of the outputs in front of
    it, is there after the last stage. -/
theorem writeAll_of_clear_front (fs : FileSystem) (cwd : Path) (front rest : List Output)
    (out : Output) (h : Clear cwd fs (front ++ [out]))
    (hothers : ∀ other ∈ rest, Path.address cwd other.file = Path.address cwd out.file →
      other = out) :
    (writeAll fs cwd (front ++ [out] ++ rest)).1.at? (Path.address cwd out.file) =
      some (.file out.planned.plan.bytes) := by
  rcases writeAll_of_clear fs cwd (front ++ [out]) h with ⟨reached, log, hfront⟩
  have hwritten := writeAll_written fs reached cwd (front ++ [out]) log hfront
  -- Of the outputs up to this one it is the last with this file.
  have hthere : reached.at? (Path.address cwd out.file) =
      some (.file out.planned.plan.bytes) := by
    have hlast : lastAt? cwd (front ++ [out]) (Path.address cwd out.file) = some out := by
      simp only [lastAt?, List.reverse_append, List.reverse_singleton, List.singleton_append,
        List.find?_cons, decide_true]
    rw [hwritten.entries, hlast]
  rw [writeAll_append fs reached cwd (front ++ [out]) rest log hfront]
  refine writeAll_keeps reached cwd rest _ _ hthere fun other hother haddress => ?_
  rw [hothers other hother haddress]

/-- The definition files of a run can be read to the end, and what is read of some of the
    services in them is text. -/
structure Harmless (fs : FileSystem) (cwd : Path) (sources : List Path) (front : List Declared) :
    Prop where
  /-- No integer in the files is too long. -/
  digits : ∀ source ∈ sources, ∀ count,
    Document.load fs cwd source ≠ .error (.tooManyDigits count)
  /-- Strings that are no text are read nowhere in the files of these services. What is read
      in the place of such a string is not what the file says. -/
  text : ∀ d ∈ front, ∀ value, Document.Holds fs cwd d.source value →
    ¬Document.Kind.Garbled (.object .document) value

/-- A run that keeps going writes a service that has a plan and the first claim on its
    file, whatever the other definition files hold, as long as no integer in them is too
    long, and no string is read in its file and those in front that is no text. Nothing may
    be in the way of the plan, nor of those in front of it, and no other plan may go to the
    same place. -/
theorem run_writes_service (fs : FileSystem) (cwd root : Path) (o : Options) (hfs : fs.WellFormed)
    (hclean : o.clean = []) (hgo : o.keepGoing = true) (sources : List Path)
    (hdiscover : Discovery.discover ⟨fs, cwd, o.recursive⟩ root (o.paths.map String.toList)
      (o.excludes.map String.toList) = .ok sources)
    (before after : List Declared) (d : Declared) (out : Output)
    (hharmless : Harmless fs cwd sources (before ++ [d]))
    (hdeclared : sources.flatMap (declaredIn fs cwd) = before ++ d :: after)
    (hends : Ends cwd o.outputPath (commonBase cwd sources) before d (.written out))
    (hclear : Clear cwd fs ((fates cwd o.outputPath (commonBase cwd sources) before).filterMap
      Fate.output? ++ [out]))
    (hothers : ∀ other ∈ Output.outputs (assignments fs cwd o sources),
      Path.address cwd other.file = Path.address cwd out.file → other = out) :
    (run fs cwd root o).fs.at? (Path.address cwd out.file) =
      some (.file out.planned.plan.bytes) := by
  have hloads : ∀ source ∈ sources, LoadsOrReports fs cwd source := fun source hsource =>
    loadsOrReports_of_mem_discover ⟨fs, cwd, o.recursive⟩ hfs root _ _ sources hdiscover source
      hsource (hharmless.digits source hsource)
  rcases exists_outputs_append fs cwd o sources before after d out hloads hdeclared hends with
    ⟨rest, houtputs⟩
  have hplans := writeAll_of_clear_front fs cwd _ rest out hclear fun other hother =>
    hothers other (by rw [houtputs]; exact List.mem_append_right _ hother)
  rw [← houtputs] at hplans
  -- Failures do not stop the run, so the last stage is reached.
  rw [run_of_clean_nil fs cwd root o hclean, hdiscover]
  simp only
  rw [(generate_of_loads fs cwd o sources (crash_survey_of_loads fs cwd sources hloads)).1, hgo]
  unfold finish
  rw [if_neg fun hstop => Bool.false_ne_true hstop.2]
  rcases hwrite : writeAll fs cwd (Output.outputs (assignments fs cwd o sources)) with
    ⟨last, log, _ | fault⟩
  · rw [hwrite] at hplans
    exact hplans
  · rw [hwrite] at hplans
    exact hplans

/-- A service that cannot be planned in front of others, two of them with one name. -/
def neighbours : List (Service TypeExpr) := [
  ⟨"Login", none, [⟨"get", [], none, some .cookie, "GET", "/"⟩]⟩,
  ⟨"Store", none, []⟩,
  ⟨"Store", some "shop", []⟩,
  ⟨"Cart", none, []⟩]

/-- A directory with a definition file that is cut off, and one with several services. -/
def badNeighbours : FileSystem where
  entries := [
    (["w".toList], .directory),
    (["w".toList, "a.conjure.json".toList], .file (Utf8.encode ['['])),
    (["w".toList, "b.conjure.json".toList],
      .file (Utf8.encode (Document.encode neighbours).render))]

/-- The settings for planning everything in the directory that can be planned, without a
    clean-up. -/
def goOnHere : Options :=
  { Options.default with paths := ["."], keepGoing := true }

/-- The output of a service without endpoints in the second file. -/
def emptyPlan (name : String) : Output :=
  ⟨"/w/./".toList ++ name.toList, ⟨"/w/./b.conjure.json".toList, ⟨⟨name, none, []⟩, []⟩⟩⟩

theorem run_writes_service_of_badNeighbours :
    (badNeighbours.WellFormed ∧ goOnHere.clean = [] ∧ goOnHere.keepGoing = true) ∧
      (run badNeighbours "/w".toList "/w".toList goOnHere).fs.at?
        ["w".toList, "Cart.plan.json".toList] =
          some (.file (ServicePlan.mk ⟨"Cart", none, []⟩ []).bytes) := by
  let a := "/w/./a.conjure.json".toList
  let b := "/w/./b.conjure.json".toList
  have hdiscover : Discovery.discover ⟨badNeighbours, "/w".toList, false⟩ "/w".toList
      [".".toList] [] = .ok [a, b] := by
    decide +kernel
  -- The first file cannot be loaded, the second one declares all services.
  have hfirst : Document.load badNeighbours "/w".toList a =
      .error (.definition ⟨some "/w/a.conjure.json".toList, .noJson ['['] .value 1⟩) := by
    decide +kernel
  have hsecond : Document.load badNeighbours "/w".toList b = .ok neighbours := by
    decide +kernel
  have hholds : Document.Holds badNeighbours "/w".toList b (Document.encode neighbours) :=
    ⟨(Document.encode neighbours).render,
      ⟨Utf8.encode (Document.encode neighbours).render, by decide +kernel, by decide +kernel⟩,
      by decide +kernel⟩
  have hdeclared : [a, b].flatMap (declaredIn badNeighbours "/w".toList) =
      (neighbours.take 3).map (Declared.mk b) ++ ⟨b, ⟨"Cart", none, []⟩⟩ :: [] := by
    simp only [List.flatMap_cons, List.flatMap_nil, declaredIn, hfirst, hsecond, List.nil_append]
    exact rfl
  have houtputs : Output.outputs (assignments badNeighbours "/w".toList goOnHere [a, b]) =
      [emptyPlan "Store", emptyPlan "Cart"] := by
    simp only [assignments, List.flatMap_cons, List.flatMap_nil, plansIn, hfirst, hsecond,
      List.nil_append]
    decide +kernel
  refine ⟨⟨by decide, rfl, rfl⟩, ?_⟩
  refine run_writes_service badNeighbours "/w".toList "/w".toList goOnHere (by decide) rfl rfl _
    hdiscover _ _ _ (emptyPlan "Cart") ⟨?_, ?_⟩ hdeclared
    ((ends_iff_fate _ _ _).2 (by decide +kernel)) (by decide +kernel) ?_
  · intro source hsource count
    rcases List.mem_pair.1 hsource with rfl | rfl
    · rw [hfirst]
      exact fun h => Document.LoadFailure.noConfusion (Except.error.inj h)
    · rw [hsecond]
      simp only [ne_eq, reduceCtorEq, not_false_eq_true]
  · -- All services come from the second file, and it was written from text.
    intro d hd value hvalue
    have hsource : d.source = b := by
      rcases List.mem_append.1 hd with hd | hd
      · rcases List.mem_map.1 hd with ⟨_, _, rfl⟩
        rfl
      · rw [List.mem_singleton.1 hd]
    rw [hsource] at hvalue
    rw [hvalue.unique hholds]
    exact Document.Kind.not_garbled_of_isWhole (by decide +kernel)
  · rw [houtputs]
    intro other hother haddress
    rcases List.mem_pair.1 hother with rfl | rfl
    · exact absurd haddress (by decide)
    · rfl

/-- A directory with a definition file that is one integer with a digit too many, and a
    definition file that declares a service. -/
def longInteger : FileSystem where
  entries := [
    (["w".toList], .directory),
    (["w".toList, "a.conjure.json".toList], .file (List.replicate 4301 49)),
    (["w".toList, "b.conjure.json".toList],
      .file (Utf8.encode (Document.encode [⟨"Store", none, []⟩]).render))]

set_option maxRecDepth 100000 in
/-- A run that keeps going can end without a plan that nothing is in the way of. -/
theorem exists_run_stopped_by_digits :
    ¬ ∀ (fs : FileSystem) (cwd root : Path) (o : Options) (sources : List Path)
      (before after : List Declared) (d : Declared) (out : Output),
      fs.WellFormed → o.clean = [] → o.keepGoing = true →
        Discovery.discover ⟨fs, cwd, o.recursive⟩ root (o.paths.map String.toList)
          (o.excludes.map String.toList) = .ok sources →
        sources.flatMap (declaredIn fs cwd) = before ++ d :: after →
        Ends cwd o.outputPath (commonBase cwd sources) before d (.written out) →
        (d.service.name.toList ≠ [] ∧ '/' ∉ d.service.name.toList ∧
          '\x00' ∉ d.service.name.toList) →
        Clear cwd fs [out] →
        (run fs cwd root o).fs.at? (Path.address cwd out.file) =
          some (.file out.planned.plan.bytes) := by
  intro h
  -- The other file is an integer that is too long, and the run ends there.
  have hplan := h longInteger "/w".toList "/w".toList goOnHere
    ["/w/./a.conjure.json".toList, "/w/./b.conjure.json".toList] [] []
    ⟨"/w/./b.conjure.json".toList, ⟨"Store", none, []⟩⟩ (emptyPlan "Store") (by decide +kernel) rfl
    rfl (by decide +kernel) (by decide +kernel) ((ends_iff_fate _ _ _).2 (by decide +kernel))
    (by decide) (by decide +kernel)
  exact absurd hplan (by decide +kernel)

end Generation

end ClientPlan
