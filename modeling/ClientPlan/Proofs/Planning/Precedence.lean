import Mathlib.Data.List.Nodup
import ClientPlan.Plan.Endpoint

/-!
# Precedence of Endpoint Failures

What becomes of an endpoint, said without the order of the checks.

Five things can become of an endpoint, and several of them can apply at once: a
name may stand for two arguments, two arguments may be the body, the
authentication may be one that no header carries, and arguments may have no
place. `Endpoint.Decided` says for each outcome when it is the one that counts.
Its rules exclude each other, since every rule repeats that the ones above it do
not apply, and `decided_iff_plan` shows that they are also complete: planning
gives the one outcome that the rules allow.

The name that is reported as repeated is found by a search for the first name
that is counted twice. The rule speaks of positions instead: of all names that
occur more than once, it is the one whose first occurrence comes first. The
token's name takes part in this comparison for every way of authentication,
while the token itself is placed only for the one by header.

## Main definitions

* `IsFirstRepeated`: The name among the repeated ones that occurs first.
* `Endpoint.bodies`: The arguments that are declared as the body.
* `Endpoint.Consistent`: A declaration whose arguments can be placed one by one.
* `tokenInstructions`: The placements in front of all declared arguments.
* `Endpoint.Decided`: The outcomes of an endpoint, each with its rule.

## Theorems

* `idxOf_le_of_find?`: A search finds the match that occurs first.
* `repeatedName?_eq_some_iff`, `repeatedName?_eq_none_iff`: What the search for
  a repeated name finds.
* `placeAll_eq_ok_iff`, `placeAll_eq_error_iff`: What becomes of some arguments.
* `plan_of_consistent`: A consistent declaration fails only at an argument.
* `exists_decided`: Some rule always applies.
* `decided_iff_plan`: Planning gives the outcome that the rules allow.
-/

namespace ClientPlan

/-- A name that occurs more than once in a list, the first one of all such
    names. -/
def IsFirstRepeated (names : List String) (name : String) : Prop :=
  1 < names.count name ∧
    ∀ other, 1 < names.count other → names.idxOf name ≤ names.idxOf other

/-- The placements in front of those of the declared arguments: the bearer token
    as a plain text in a header, for an endpoint that authenticates by header. -/
def tokenInstructions : Option Auth → List Instruction
  | some .header =>
    [{ argument := ⟨"authHeader", .header "Authorization", .primitive .bearertoken⟩
       slot := .header
       wireName := some "Authorization"
       encoding := .plain .bearertoken
       multiValued := false
       conditional := false }]
  | _ => []

namespace Endpoint

/-- The arguments that are declared as the body. -/
def bodies (e : Endpoint TypeExpr) : List (Argument TypeExpr) :=
  e.args.filter fun a => a.location = .body

/-- A declaration that no check refuses before its arguments are placed. -/
structure Consistent (e : Endpoint TypeExpr) : Prop where
  names : e.argumentNames.Nodup
  bodies : e.bodies.length ≤ 1
  auth : e.auth = none ∨ e.auth = some .header

/-- The outcomes of an endpoint. A rule applies only where none above it does. -/
inductive Decided (e : Endpoint TypeExpr) : Except EndpointError EndpointPlan → Prop where
  | duplicateArgument (name : String)
      (first : IsFirstRepeated e.argumentNames name) :
      Decided e (.error (.duplicateArgument e.name name))
  | multipleBodies (names : e.argumentNames.Nodup) (several : 1 < e.bodies.length) :
      Decided e (.error (.multipleBodies e.name (e.bodies.map (·.name))))
  | invalidAuth (auth : Auth) (names : e.argumentNames.Nodup) (bodies : e.bodies.length ≤ 1)
      (asked : e.auth = some auth) (other : auth ≠ .header) :
      Decided e (.error (.invalidAuth e.name auth))
  /-- The first argument that has no place decides. -/
  | illegalPlacement (before after : List (Argument TypeExpr)) (a : Argument TypeExpr)
      (placement : IllegalPlacement) (consistent : e.Consistent)
      (split : e.args = before ++ a :: after)
      (placed : ∀ b ∈ before, ∃ i, b.place e.name = .ok i)
      (refused : a.place e.name = .error placement) :
      Decided e (.error (.illegalPlacement placement))
  /-- Every argument has a place, and keeps its position among the others. -/
  | planned (instructions : List Instruction) (consistent : e.Consistent)
      (placed : List.Forall₂ (fun a i => a.place e.name = .ok i) e.args instructions) :
      Decided e (.ok ⟨e, tokenInstructions e.auth ++ instructions,
        ⟨e.name ++ "Deserializer", e.returns⟩⟩)

end Endpoint

/-- Nothing that passes a test occurs before the first match of a search. -/
theorem idxOf_le_of_find? (test : String → Bool) (names : List String) (name other : String)
    (h : names.find? test = some name) (hother : test other = true) :
    names.idxOf name ≤ names.idxOf other := by
  rcases List.find?_eq_some_iff_append.1 h with ⟨htest, before, after, hsplit, hbefore⟩
  -- Neither name stands in front of the match, so both indices count past that.
  have hnot : ∀ x, test x = true → x ∉ before := by
    intro x hx hmem
    simpa only [hx, Bool.not_true, Bool.false_eq_true] using hbefore x hmem
  rw [hsplit, List.idxOf_append_of_notMem (hnot name htest),
    List.idxOf_append_of_notMem (hnot other hother), List.idxOf_cons_self]
  omega

namespace Endpoint

theorem one_lt_count_of_repeatedName? (e : Endpoint TypeExpr) (name : String)
    (h : e.repeatedName? = some name) : 1 < e.argumentNames.count name := by
  unfold repeatedName? at h
  simpa only [decide_eq_true_eq] using List.find?_some h

theorem repeatedName?_eq_some_iff (e : Endpoint TypeExpr) (name : String) :
    e.repeatedName? = some name ↔ IsFirstRepeated e.argumentNames name := by
  constructor
  · intro h
    refine ⟨one_lt_count_of_repeatedName? e name h, ?_⟩
    intro other hother
    exact idxOf_le_of_find? _ _ name other h (decide_eq_true hother)
  · rintro ⟨hcount, hfirst⟩
    have hmem : name ∈ e.argumentNames := List.count_pos_iff.1 (by omega)
    rcases hfound : e.repeatedName? with _ | found
    · exact absurd (decide_eq_true hcount) (List.find?_eq_none.1 hfound name hmem)
    · -- Of two names that are both first, neither comes before the other.
      have hle := hfirst found (one_lt_count_of_repeatedName? e found hfound)
      have hge := idxOf_le_of_find? _ _ found name hfound (decide_eq_true hcount)
      rw [(List.idxOf_inj hmem).1 (Nat.le_antisymm hle hge)]

theorem repeatedName?_eq_none_iff (e : Endpoint TypeExpr) :
    e.repeatedName? = none ↔ e.argumentNames.Nodup := by
  simp only [repeatedName?, List.find?_eq_none, decide_eq_true_eq, Nat.not_lt]
  rw [List.nodup_iff_count_le_one]
  constructor
  · intro h name
    -- The search looks only at names that occur.
    by_cases hmem : name ∈ e.argumentNames
    · exact h name hmem
    · rw [List.count_eq_zero_of_not_mem hmem]
      omega
  · intro h name _
    exact h name

theorem bodyNames_eq (e : Endpoint TypeExpr) : e.bodyNames = e.bodies.map (·.name) := by
  have htest : ∀ l : Location, decide (l.slot = .body) = decide (l = .body) := by
    intro l
    cases l <;> rfl
  simp only [bodyNames, bodies, htest]

end Endpoint

theorem placeAll_eq_ok_iff (endpoint : String) (args : List (Argument TypeExpr))
    (instructions : List Instruction) :
    placeAll endpoint args = .ok instructions ↔
      List.Forall₂ (fun a i => a.place endpoint = .ok i) args instructions := by
  induction args generalizing instructions with
  | nil =>
      simp only [placeAll, Except.ok.injEq, List.forall₂_nil_left_iff, eq_comm]
  | cons a args ih =>
      rw [List.forall₂_cons_left_iff]
      simp only [placeAll]
      rcases ha : a.place endpoint with p | i
      · simp only [reduceCtorEq, false_and, exists_false]
      · rcases hargs : placeAll endpoint args with p | rest
        · -- The others have no placements, whatever the first one has.
          simp only [hargs, reduceCtorEq] at ih
          simp only [reduceCtorEq, ← ih, false_and, and_false, exists_false]
        · simp only [hargs] at ih
          simp only [Except.ok.injEq, ← ih]
          constructor
          · intro h
            exact ⟨i, rest, rfl, rfl, h.symm⟩
          · rintro ⟨j, others, rfl, rfl, rfl⟩
            rfl

theorem placeAll_eq_error_iff (endpoint : String) (args : List (Argument TypeExpr))
    (placement : IllegalPlacement) :
    placeAll endpoint args = .error placement ↔
      ∃ before a after, args = before ++ a :: after ∧
        (∀ b ∈ before, ∃ i, b.place endpoint = .ok i) ∧ a.place endpoint = .error placement := by
  induction args with
  | nil =>
      constructor
      · intro h
        cases h
      · rintro ⟨before, a, after, hsplit, -, -⟩
        simp only [List.nil_eq, List.append_eq_nil_iff, reduceCtorEq, and_false] at hsplit
  | cons a args ih =>
      simp only [placeAll]
      constructor
      · intro h
        -- Either the first argument is refused, or the one that is stands behind it.
        rcases ha : a.place endpoint with p | i
        · rw [ha] at h
          refine ⟨[], a, args, rfl, ?_, ?_⟩
          · intro b hb
            cases hb
          · rw [ha]
            cases h
            rfl
        · rw [ha] at h
          rcases hargs : placeAll endpoint args with p | rest
          · rw [hargs] at h
            rcases ih.1 (hargs.trans h) with ⟨before, c, after, hsplit, hplaced, hc⟩
            refine ⟨a :: before, c, after, by rw [hsplit, List.cons_append], ?_, hc⟩
            intro b hb
            rcases List.mem_cons.1 hb with rfl | hb
            · exact ⟨i, ha⟩
            · exact hplaced b hb
          · rw [hargs] at h
            cases h
      · rintro ⟨before, c, after, hsplit, hplaced, hc⟩
        -- The first argument is the refused one exactly if none stands before that.
        cases before with
        | nil =>
            cases hsplit
            rw [hc]
        | cons b before =>
            cases hsplit
            rcases hplaced a List.mem_cons_self with ⟨i, hi⟩
            have hrest := ih.2 ⟨before, c, after, rfl,
              fun d hd => hplaced d (List.mem_cons_of_mem a hd), hc⟩
            rw [hi, hrest]

/-- Placing the token in front of other arguments always succeeds. -/
theorem placeAll_tokenArgument (endpoint : String) (args : List (Argument TypeExpr)) :
    placeAll endpoint (tokenArgument :: args) =
      (placeAll endpoint args).map (tokenInstructions (some .header) ++ ·) := by
  have htoken : tokenArgument.place endpoint =
      .ok (tokenArgument.instruction (.plain .bearertoken) false) := rfl
  simp only [placeAll, htoken]
  rcases placeAll endpoint args with p | is
  · rfl
  · rfl

namespace Endpoint

theorem plan_of_isFirstRepeated (e : Endpoint TypeExpr) (name : String)
    (h : IsFirstRepeated e.argumentNames name) :
    e.plan = .error (.duplicateArgument e.name name) := by
  have hargs : e.allArguments = .error (.duplicateArgument e.name name) := by
    unfold allArguments
    rw [(repeatedName?_eq_some_iff e name).2 h]
  unfold plan
  rw [hargs]

/-- Behind the check of the names, what is reported depends on the bodies and the
    authentication alone. -/
theorem allArguments_of_nodup (e : Endpoint TypeExpr) (h : e.argumentNames.Nodup) :
    e.allArguments =
      if 1 < e.bodies.length then .error (.multipleBodies e.name (e.bodies.map (·.name)))
      else
        match e.auth with
        | none => .ok e.args
        | some .header => .ok (tokenArgument :: e.args)
        | some auth => .error (.invalidAuth e.name auth) := by
  have hrepeated := (repeatedName?_eq_none_iff e).2 h
  -- Only a header puts the token in front, and a cookie is refused.
  cases hauth : e.auth with
  | none => simp only [allArguments, hrepeated, bodyNames_eq, List.length_map, hauth]
  | some auth =>
      cases auth with
      | header => simp only [allArguments, hrepeated, bodyNames_eq, List.length_map, hauth]
      | cookie => simp only [allArguments, hrepeated, bodyNames_eq, List.length_map, hauth]

theorem plan_of_multipleBodies (e : Endpoint TypeExpr) (hnames : e.argumentNames.Nodup)
    (hbodies : 1 < e.bodies.length) :
    e.plan = .error (.multipleBodies e.name (e.bodies.map (·.name))) := by
  unfold plan
  rw [allArguments_of_nodup e hnames, if_pos hbodies]

theorem plan_of_invalidAuth (e : Endpoint TypeExpr) (auth : Auth)
    (hnames : e.argumentNames.Nodup) (hbodies : e.bodies.length ≤ 1)
    (hasked : e.auth = some auth) (hother : auth ≠ .header) :
    e.plan = .error (.invalidAuth e.name auth) := by
  unfold plan
  rw [allArguments_of_nodup e hnames, if_neg (by omega), hasked]
  cases auth with
  | header => exact absurd rfl hother
  | cookie => rfl

/-- A consistent declaration fails only at an argument without a place. -/
theorem plan_of_consistent (e : Endpoint TypeExpr) (h : e.Consistent) :
    e.plan =
      match placeAll e.name e.args with
      | .error placement => .error (.illegalPlacement placement)
      | .ok instructions =>
        .ok ⟨e, tokenInstructions e.auth ++ instructions,
          ⟨e.name ++ "Deserializer", e.returns⟩⟩ := by
  have hbodies := h.bodies
  unfold plan
  rw [allArguments_of_nodup e h.names, if_neg (by omega)]
  -- With a header the token is placed first, which changes no failure.
  rcases h.auth with hauth | hauth
  · rw [hauth]
    simp only
    rcases placeAll e.name e.args with p | is
    · rfl
    · rfl
  · rw [hauth]
    simp only [placeAll_tokenArgument]
    rcases placeAll e.name e.args with p | is
    · rfl
    · rfl

theorem plan_of_decided (e : Endpoint TypeExpr) (outcome : Except EndpointError EndpointPlan)
    (h : e.Decided outcome) : e.plan = outcome := by
  -- Each rule is what the planner does where it applies.
  cases h with
  | duplicateArgument name first => exact plan_of_isFirstRepeated e name first
  | multipleBodies names several => exact plan_of_multipleBodies e names several
  | invalidAuth auth names bodies asked other =>
      exact plan_of_invalidAuth e auth names bodies asked other
  | illegalPlacement before after a placement consistent split placed refused =>
      rw [plan_of_consistent e consistent,
        (placeAll_eq_error_iff e.name e.args placement).2
          ⟨before, a, after, split, placed, refused⟩]
  | planned instructions consistent placed =>
      rw [plan_of_consistent e consistent,
        (placeAll_eq_ok_iff e.name e.args instructions).2 placed]

/-- Some rule always applies. The cases are split in the order of precedence, so
    each one may use that those before it do not apply. -/
theorem exists_decided (e : Endpoint TypeExpr) : ∃ outcome, e.Decided outcome := by
  rcases hrepeated : e.repeatedName? with _ | name
  · have hnames := (repeatedName?_eq_none_iff e).1 hrepeated
    by_cases hbodies : 1 < e.bodies.length
    · exact ⟨_, .multipleBodies hnames hbodies⟩
    · -- Both ways of authentication that are left leave it to the arguments.
      have hplaced : e.auth = none ∨ e.auth = some .header → ∃ outcome, e.Decided outcome := by
        intro hauth
        have hconsistent : e.Consistent := ⟨hnames, by omega, hauth⟩
        rcases hall : placeAll e.name e.args with p | is
        · rcases (placeAll_eq_error_iff e.name e.args p).1 hall with
            ⟨before, a, after, hsplit, hbefore, ha⟩
          exact ⟨_, .illegalPlacement before after a p hconsistent hsplit hbefore ha⟩
        · exact ⟨_, .planned is hconsistent ((placeAll_eq_ok_iff e.name e.args is).1 hall)⟩
      cases hauth : e.auth with
      | none => exact hplaced (Or.inl hauth)
      | some auth =>
          cases auth with
          | header => exact hplaced (Or.inr hauth)
          | cookie =>
              exact ⟨_, .invalidAuth .cookie hnames (by omega) hauth
                (by simp only [ne_eq, reduceCtorEq, not_false_eq_true])⟩
  · exact ⟨_, .duplicateArgument name ((repeatedName?_eq_some_iff e name).1 hrepeated)⟩

/-- An endpoint has exactly one outcome, and planning gives it. -/
theorem decided_iff_plan (e : Endpoint TypeExpr) (outcome : Except EndpointError EndpointPlan) :
    e.Decided outcome ↔ e.plan = outcome := by
  constructor
  · exact plan_of_decided e outcome
  · intro h
    -- The outcome that some rule allows is the one that planning gives.
    rcases exists_decided e with ⟨decided, hdecided⟩
    rw [← h, plan_of_decided e decided hdecided]
    exact hdecided

/-- The name counts first, though a body too many and the authentication would
    each be reason enough. The token's name is the one repeated. -/
example :
    (⟨"put", [⟨"a", .body, .primitive .string⟩, ⟨"authHeader", .body, .primitive .string⟩], none,
      some .cookie, "PUT", "/"⟩ : Endpoint TypeExpr).plan =
      .error (.duplicateArgument "put" "authHeader") := by
  decide

end Endpoint

end ClientPlan
