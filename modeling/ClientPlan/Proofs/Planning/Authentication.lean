import ClientPlan.Proofs.Planning.Placement
import ClientPlan.Proofs.Planning.Precedence

/-!
# Authentication of Endpoints

Which failure an endpoint has whose authentication is not supported.

A bearer token is placed only for authentication by header, so only there can its name
clash with a declared one. The check of the names does not make this distinction. It
takes the token's name into account for every kind of authentication, and it comes
first. So an endpoint that authenticates by cookie and declares an argument under that
name is refused for a repetition that is none, since its instructions would have
carried the name once. Every other endpoint with distinct names and one body at most
that authenticates by cookie is refused for the cookie.

## Main definitions

* `Endpoint.declaredNames`: The names of the declared arguments.
* `Endpoint.carriedNames`: The names that the instructions of an endpoint carry.

## Theorems

* `carriedNames_of_plan`: The names in a plan are those that it should carry.
* `one_lt_count_argumentNames_iff`: What counts as repeated.
* `nodup_argumentNames_of_cookie_iff`, `isFirstRepeated_tokenName`: What counts as repeated
  beside a cookie.
* `refused_for_cookie_or_repetition`: Failures over the authentication and over names.
* `exists_cookie_refused_for_name`: A name that is not repeated comes before the cookie.
-/

namespace ClientPlan

/-- Each placement is that of the argument at its position. -/
theorem names_of_placed (endpoint : String) (args : List (Argument TypeExpr))
    (instructions : List Instruction)
    (h : List.Forall₂ (fun a i => a.place endpoint = .ok i) args instructions) :
    instructions.map (·.argument.name) = args.map (·.name) := by
  induction h with
  | nil => rfl
  | @cons a i args instructions hplace _ ih =>
      rw [List.map_cons, List.map_cons, ih, (a.placedBy_of_place endpoint i hplace).argument]

namespace Endpoint

/-- The names of the declared arguments. -/
def declaredNames (e : Endpoint TypeExpr) : List String :=
  e.args.map (·.name)

/-- The names that the instructions of an endpoint carry, if it has a plan: the token's,
    if a header carries that, and those of the declared arguments. -/
def carriedNames (e : Endpoint TypeExpr) : List String :=
  (if e.auth = some .header then [tokenName] else []) ++ e.declaredNames

/-- The names in a plan are those that it should carry. -/
theorem carriedNames_of_plan (e : Endpoint TypeExpr) (p : EndpointPlan) (h : e.plan = .ok p) :
    p.instructions.map (·.argument.name) = e.carriedNames := by
  rcases (decided_iff_plan e (.ok p)).2 h with _ | _ | _ | _ | ⟨instructions, hconsistent, hplaced⟩
  rw [List.map_append, names_of_placed e.name e.args instructions hplaced, carriedNames,
    declaredNames]
  rcases hconsistent.auth with hauth | hauth
  · rw [hauth]
    rfl
  · rw [hauth]
    rfl

/-- A name counts as repeated if two instructions would carry it, or if it is the token's
    and is declared beside a cookie. -/
theorem one_lt_count_argumentNames_iff (e : Endpoint TypeExpr) (name : String) :
    1 < e.argumentNames.count name ↔ 1 < e.carriedNames.count name ∨
      (e.auth = some .cookie ∧ name = tokenName ∧ name ∈ e.declaredNames) := by
  rw [argumentNames, carriedNames, ← declaredNames, List.count_append, List.count_append]
  rcases hauth : e.auth with _ | _ | _
  · simp only [Option.isSome_none, Bool.false_eq_true, if_false, List.count_nil, Nat.add_zero,
      Nat.zero_add, reduceCtorEq, false_and, or_false]
  · -- Behind the declared names or in front of them, the token's counts the same.
    simp only [Option.isSome_some, if_true, Nat.add_comm, Option.some.injEq, reduceCtorEq,
      false_and, or_false]
  · simp only [Option.isSome_some, if_true, Option.some.injEq, reduceCtorEq, if_false,
      List.count_nil, Nat.zero_add, true_and]
    -- Beside a cookie the token's name counts once more, and no instruction carries it.
    by_cases hname : name = tokenName
    · simp only [hname, List.count_singleton_self, true_and, ← List.count_pos_iff]
      omega
    · have hother : [tokenName].count name = 0 :=
        List.count_eq_zero_of_not_mem fun hmem => hname (List.mem_singleton.1 hmem)
      simp only [hother, Nat.add_zero, hname, false_and, or_false]

/-- Beside a cookie nothing counts as repeated if the declared names are distinct and none of
    them is the token's. -/
theorem nodup_argumentNames_of_cookie_iff (e : Endpoint TypeExpr) (h : e.auth = some .cookie) :
    e.argumentNames.Nodup ↔ e.declaredNames.Nodup ∧ tokenName ∉ e.declaredNames := by
  rw [argumentNames, ← declaredNames, h]
  simp only [Option.isSome_some, if_true]
  rw [List.nodup_append_comm, List.singleton_append, List.nodup_cons, and_comm]

/-- Beside a cookie only the token's name can count as repeated, as long as the declared names
    are distinct. -/
theorem isFirstRepeated_tokenName (e : Endpoint TypeExpr) (hauth : e.auth = some .cookie)
    (hnodup : e.declaredNames.Nodup) (htoken : tokenName ∈ e.declaredNames) :
    IsFirstRepeated e.argumentNames tokenName := by
  refine ⟨(one_lt_count_argumentNames_iff e tokenName).2 (.inr ⟨hauth, rfl, htoken⟩), ?_⟩
  intro other hother
  rcases (one_lt_count_argumentNames_iff e other).1 hother with hcarried | ⟨-, hname, -⟩
  · rw [carriedNames, hauth, if_neg (by decide), List.nil_append] at hcarried
    have hone := List.nodup_iff_count_le_one.1 hnodup other
    omega
  · exact Nat.le_of_eq (by rw [hname])

/-- An endpoint that authenticates by cookie and has distinct names and one body at most is
    refused for the cookie, unless it declares the token's name. What is refused for a
    repeated name has one that two instructions would carry, or declares the token's name
    beside a cookie. -/
theorem refused_for_cookie_or_repetition (e : Endpoint TypeExpr) :
    (e.auth = some .cookie → e.declaredNames.Nodup → e.bodies.length ≤ 1 →
        e.plan = .error (if tokenName ∈ e.declaredNames then .duplicateArgument e.name tokenName
          else .invalidAuth e.name .cookie)) ∧
      (∀ endpoint name, e.plan = .error (.duplicateArgument endpoint name) →
        endpoint = e.name ∧ (1 < e.carriedNames.count name ∨
          (e.auth = some .cookie ∧ name = tokenName ∧ name ∈ e.declaredNames))) ∧
      ∀ p, e.plan = .ok p → p.instructions.map (·.argument.name) = e.carriedNames := by
  refine ⟨?_, ?_, e.carriedNames_of_plan⟩
  · intro hauth hnodup hbodies
    by_cases htoken : tokenName ∈ e.declaredNames
    · rw [if_pos htoken]
      exact plan_of_isFirstRepeated e tokenName
        (isFirstRepeated_tokenName e hauth hnodup htoken)
    · rw [if_neg htoken]
      have hnames := (nodup_argumentNames_of_cookie_iff e hauth).2 ⟨hnodup, htoken⟩
      exact plan_of_invalidAuth e .cookie hnames hbodies hauth (by decide)
  · intro endpoint name hplan
    -- Of the rules for an outcome only the first one reports a repeated name.
    rcases (decided_iff_plan e _).2 hplan with ⟨_, hfirst, -⟩
    exact ⟨rfl, (one_lt_count_argumentNames_iff e name).1 hfirst⟩

/-- An endpoint that authenticates by cookie and has a single argument. -/
def cookieWith (argument : String) : Endpoint TypeExpr :=
  ⟨"getVersion", [⟨argument, .query "q", .primitive .string⟩], none, some .cookie, "GET", "/"⟩

/-- The name of the argument decides what the endpoint is refused for. -/
theorem refused_for_cookie_or_name :
    ((cookieWith "branch").auth = some .cookie ∧ (cookieWith "branch").declaredNames.Nodup ∧
        (cookieWith "branch").bodies.length ≤ 1) ∧
      (cookieWith "branch").plan = .error (.invalidAuth "getVersion" .cookie) ∧
      (cookieWith "authHeader").plan = .error (.duplicateArgument "getVersion" "authHeader") ∧
      (cookieWith "authHeader").carriedNames = ["authHeader"] := by
  have hnodup : (cookieWith "branch").declaredNames.Nodup := by decide
  refine ⟨⟨rfl, hnodup, by decide⟩, ?_, ?_, rfl⟩
  · exact (refused_for_cookie_or_repetition (cookieWith "branch")).1 rfl hnodup (by decide)
  · exact (refused_for_cookie_or_repetition (cookieWith "authHeader")).1 rfl (by decide)
      (by decide)

/-- A cookie is not always what an endpoint is refused for, and a name that is reported as
    repeated is not always carried twice. -/
theorem exists_cookie_refused_for_name :
    (¬ ∀ e : Endpoint TypeExpr, e.auth = some .cookie → e.declaredNames.Nodup →
        e.bodies.length ≤ 1 → e.plan = .error (.invalidAuth e.name .cookie)) ∧
      ¬ ∀ (e : Endpoint TypeExpr) (endpoint name : String),
        e.plan = .error (.duplicateArgument endpoint name) → 1 < e.carriedNames.count name := by
  constructor
  · intro h
    exact absurd (h (cookieWith "authHeader") rfl (by decide) (by decide)) (by decide)
  · intro h
    exact absurd (h (cookieWith "authHeader") "getVersion" "authHeader" (by decide)) (by decide)

end Endpoint

end ClientPlan
