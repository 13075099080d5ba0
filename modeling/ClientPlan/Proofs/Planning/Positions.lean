import ClientPlan.Plan.Service
import ClientPlan.Proofs.Planning.Precedence

/-!
# Positions in a Service

What becomes of each endpoint of a service, said by its position.

Planning walks along the endpoints with the names it has met so far, and sorts
what becomes of them into plans and failures. `Service.decisions` says the same
without the walk: the endpoint at a position is refused if one in front of it has
its name, and is otherwise planned as if it were alone. Whether the one in front
had a plan makes no difference.

The lookup of a plan takes the first one of a name. That this is the plan of the
endpoint that was asked for rests on an invariant of the walk: the plans that
are still to come have names that are neither among those met so far nor equal
to each other (`names_plans_outcomesAfter`).

## Main definitions

* `Outcome.error?`: The failure that an outcome is.
* `Service.decisions`: What becomes of the endpoint at each position.
* `Service.refusals`, `Service.successes`: The failures and the plans among that.

## Theorems

* `getElem?_outcomesAfter`: The walk decides a position by what is in front.
* `outcomes_eq_decisions`: The walk decides all positions as said here.
* `names_plans_outcomesAfter`: The names of the plans that are still to come.
* `length_refusals_add_length_successes`: No position is lost.
* `plan_eq`: Planning a service, in terms of its positions.
* `service_of_plan`: A plan is that of its service.
* `map_plan_of_plan`, `names_of_plan`: A plan has its endpoints in order.
* `find?_eq_some_of_nodup`: A search by a key finds the only value of that key.
* `get?_of_plan`, `get?_eq_none_iff_of_plan`: What the lookup of a plan finds.
* `plan_decides_positions`: The plans or the failures of a service.
-/

namespace ClientPlan

/-- The failure that an outcome is, if it is one. -/
def Outcome.error? : Outcome → Option EndpointError
  | .error e => some e
  | .ok _ => none

theorem Outcome.errors_eq_filterMap (outcomes : List Outcome) :
    Outcome.errors outcomes = outcomes.filterMap Outcome.error? := by
  induction outcomes with
  | nil => rfl
  | cons outcome outcomes ih =>
      rcases outcome with e | p
      · rw [Outcome.errors, ih]
        rfl
      · rw [Outcome.errors, ih]
        rfl

theorem Outcome.plans_eq_filterMap (outcomes : List Outcome) :
    Outcome.plans outcomes = outcomes.filterMap Except.toOption := by
  induction outcomes with
  | nil => rfl
  | cons outcome outcomes ih =>
      rcases outcome with e | p
      · rw [Outcome.plans, ih]
        rfl
      · rw [Outcome.plans, ih]
        rfl

theorem Endpoint.endpoint_of_plan (e : Endpoint TypeExpr) (p : EndpointPlan)
    (h : e.plan = .ok p) : p.endpoint = e := by
  -- Only one rule allows a plan, and it says whose plan it is.
  rcases e.exists_decided with ⟨outcome, hdecided⟩
  rw [← e.plan_of_decided outcome hdecided, h] at hdecided
  cases hdecided
  rfl

namespace Service

/-- What becomes of the endpoint at each position. -/
def decisions (s : Service TypeExpr) : List Outcome :=
  s.endpoints.mapIdx fun i e =>
    if e.name ∈ (s.endpoints.take i).map (·.name) then
      .error (.duplicateEndpoint s.name e.name)
    else e.plan

/-- The failures of a service, in declaration order. -/
def refusals (s : Service TypeExpr) : List EndpointError :=
  s.decisions.filterMap Outcome.error?

/-- The plans of the endpoints that have one, in declaration order. -/
def successes (s : Service TypeExpr) : List EndpointPlan :=
  s.decisions.filterMap Except.toOption

/-- The walk knows the names in front of a position in two parts: those it has
    met before and those of the endpoints it has passed. -/
theorem getElem?_outcomesAfter (service : String) (endpoints : List (Endpoint TypeExpr))
    (used : List String) (i : Nat) :
    (outcomesAfter service used endpoints)[i]? = endpoints[i]?.map fun e =>
      if e.name ∈ used ∨ e.name ∈ (endpoints.take i).map (·.name) then
        .error (.duplicateEndpoint service e.name)
      else e.plan := by
  -- By induction on the endpoints, whatever names have been met in front of them.
  induction endpoints generalizing used i with
  | nil => rfl
  | cons first endpoints ih =>
      cases i with
      | zero =>
          simp only [outcomesAfter, List.take_zero, List.map_nil, List.not_mem_nil, or_false,
            List.getElem?_cons_zero, Option.map_some]
          split <;> rfl
      | succ i =>
          simp only [List.getElem?_cons_succ, List.take_succ_cons, List.map_cons, List.mem_cons]
          by_cases hfirst : first.name ∈ used
          · -- A repeated name is known already, so passing it adds nothing.
            have hknown : ∀ name : String,
                (name ∈ used ∨ name = first.name ∨ name ∈ (endpoints.take i).map (·.name)) ↔
                  (name ∈ used ∨ name ∈ (endpoints.take i).map (·.name)) := by
              intro name
              constructor
              · rintro (h | rfl | h)
                · exact Or.inl h
                · exact Or.inl hfirst
                · exact Or.inr h
              · rintro (h | h)
                · exact Or.inl h
                · exact Or.inr (Or.inr h)
            simp only [outcomesAfter, if_pos hfirst, List.getElem?_cons_succ, ih, hknown]
          · simp only [outcomesAfter, if_neg hfirst, List.getElem?_cons_succ, ih, List.mem_cons,
              or_assoc, or_left_comm]

theorem outcomes_eq_decisions (s : Service TypeExpr) : s.outcomes = s.decisions := by
  apply List.ext_getElem?
  intro i
  rw [outcomes, getElem?_outcomesAfter, decisions, List.getElem?_mapIdx]
  simp only [List.not_mem_nil, false_or]

/-- The invariant of the walk: whatever is still planned has a name that is new,
    both to the walk and among the plans to come. -/
theorem names_plans_outcomesAfter (service : String) (endpoints : List (Endpoint TypeExpr))
    (used : List String) :
    (∀ p ∈ Outcome.plans (outcomesAfter service used endpoints), p.endpoint.name ∉ used) ∧
      ((Outcome.plans (outcomesAfter service used endpoints)).map (·.endpoint.name)).Nodup := by
  induction endpoints generalizing used with
  | nil =>
      refine ⟨?_, List.nodup_nil⟩
      intro p hp
      cases hp
  | cons e endpoints ih =>
      by_cases hused : e.name ∈ used
      · simp only [outcomesAfter, if_pos hused, Outcome.plans]
        exact ih used
      · simp only [outcomesAfter, if_neg hused]
        rcases ih (e.name :: used) with ⟨hnew, hnodup⟩
        -- Names that are new after this endpoint were new before it.
        have hrest : ∀ p ∈ Outcome.plans (outcomesAfter service (e.name :: used) endpoints),
            p.endpoint.name ∉ used := by
          intro p hp hin
          exact hnew p hp (List.mem_cons_of_mem e.name hin)
        rcases hplan : e.plan with failure | q
        · exact ⟨hrest, hnodup⟩
        · have hq : q.endpoint.name = e.name := by
            rw [e.endpoint_of_plan q hplan]
          simp only [Outcome.plans, List.map_cons, List.nodup_cons]
          refine ⟨?_, ?_, hnodup⟩
          · intro p hp
            rcases List.mem_cons.1 hp with rfl | hp
            · rw [hq]
              exact hused
            · exact hrest p hp
          · -- The names to come are apart from the one that the walk has just met.
            intro hmem
            rcases List.mem_map.1 hmem with ⟨p, hp, hname⟩
            refine hnew p hp ?_
            rw [hname, hq]
            exact List.mem_cons_self

theorem names_successes_nodup (s : Service TypeExpr) :
    (s.successes.map (·.endpoint.name)).Nodup := by
  have h := (names_plans_outcomesAfter s.name s.endpoints []).2
  rw [← outcomes, outcomes_eq_decisions, Outcome.plans_eq_filterMap] at h
  exact h

theorem length_refusals_add_length_successes (s : Service TypeExpr) :
    s.refusals.length + s.successes.length = s.endpoints.length := by
  have h := Outcome.length_errors_add_length_plans s.decisions
  rw [Outcome.errors_eq_filterMap, Outcome.plans_eq_filterMap] at h
  rw [refusals, successes, h, decisions, List.length_mapIdx]

theorem plan_eq (s : Service TypeExpr) :
    s.plan =
      if s.refusals = [] then .ok ⟨s, s.successes⟩
      else .error ⟨s.name, s.refusals, s.successes⟩ := by
  unfold plan refusals successes
  rw [outcomes_eq_decisions, Outcome.errors_eq_filterMap, Outcome.plans_eq_filterMap]
  rcases s.decisions.filterMap Outcome.error? with _ | ⟨e, errors⟩
  · rfl
  · rfl

theorem service_of_plan (s : Service TypeExpr) (p : ServicePlan) (h : s.plan = .ok p) :
    p.service = s := by
  rw [plan_eq] at h
  split at h
  · cases h
    rfl
  · cases h

/-- Without a failure no endpoint is refused for its name, so every endpoint is
    planned as if it were alone. -/
theorem map_plan_of_no_errors (service : String) (endpoints : List (Endpoint TypeExpr))
    (used : List String) (h : Outcome.errors (outcomesAfter service used endpoints) = []) :
    endpoints.map Endpoint.plan =
      (Outcome.plans (outcomesAfter service used endpoints)).map Except.ok := by
  induction endpoints generalizing used with
  | nil => rfl
  | cons e endpoints ih =>
      -- A name that has been met would be an error.
      by_cases hused : e.name ∈ used
      · simp only [outcomesAfter, if_pos hused, Outcome.errors, reduceCtorEq] at h
      · simp only [outcomesAfter, if_neg hused] at h ⊢
        rcases hplan : e.plan with failure | q
        · simp only [hplan, Outcome.errors, reduceCtorEq] at h
        · simp only [hplan, Outcome.errors] at h
          simp only [Outcome.plans, List.map_cons, hplan, ih (e.name :: used) h]

theorem map_endpoint_of_map_plan (endpoints : List (Endpoint TypeExpr)) (plans : List EndpointPlan)
    (h : endpoints.map Endpoint.plan = plans.map Except.ok) :
    plans.map (·.endpoint) = endpoints := by
  induction endpoints generalizing plans with
  | nil =>
      rw [List.map_nil, eq_comm, List.map_eq_nil_iff] at h
      rw [h, List.map_nil]
  | cons e endpoints ih =>
      cases plans with
      | nil => simp only [List.map_cons, List.map_nil, reduceCtorEq] at h
      | cons q plans =>
          simp only [List.map_cons, List.cons.injEq] at h
          rw [List.map_cons, e.endpoint_of_plan q h.1, ih plans h.2]

/-- The plan of a service has one plan for each endpoint, in order. -/
theorem map_plan_of_plan (s : Service TypeExpr) (p : ServicePlan) (h : s.plan = .ok p) :
    s.endpoints.map Endpoint.plan = p.endpoints.map Except.ok := by
  rw [plan_eq] at h
  split at h
  · rename_i hnone
    cases h
    -- No refusals in the decisions means no errors along the walk.
    have herrors : Outcome.errors (outcomesAfter s.name [] s.endpoints) = [] := by
      rw [← outcomes, outcomes_eq_decisions, Outcome.errors_eq_filterMap]
      exact hnone
    have hmap := map_plan_of_no_errors s.name s.endpoints [] herrors
    rw [← outcomes, outcomes_eq_decisions, Outcome.plans_eq_filterMap] at hmap
    exact hmap
  · cases h

/-- No two endpoints of a planned service have the same name. -/
theorem names_nodup_of_plan (s : Service TypeExpr) (p : ServicePlan) (h : s.plan = .ok p) :
    (p.endpoints.map (·.endpoint.name)).Nodup := by
  have hsuccesses := names_successes_nodup s
  rw [plan_eq] at h
  split at h
  · cases h
    exact hsuccesses
  · cases h

theorem names_of_plan (s : Service TypeExpr) (p : ServicePlan) (h : s.plan = .ok p) :
    p.endpoints.map (·.endpoint.name) = s.endpoints.map (·.name) := by
  rw [← map_endpoint_of_map_plan s.endpoints p.endpoints (map_plan_of_plan s p h), List.map_map]
  rfl

end Service

/-- A search for a key finds the value that has it, if no other value does. -/
theorem find?_eq_some_of_nodup (plans : List EndpointPlan) (q : EndpointPlan)
    (hnodup : (plans.map (·.endpoint.name)).Nodup) (hq : q ∈ plans) :
    (plans.find? fun p => p.endpoint.name = q.endpoint.name) = some q := by
  induction plans with
  | nil => cases hq
  | cons p plans ih =>
      rw [List.map_cons, List.nodup_cons] at hnodup
      rcases List.mem_cons.1 hq with rfl | hq
      · rw [List.find?_cons_of_pos (by simp only [decide_true])]
      · -- The name is not that of an endpoint in front.
        have hne : p.endpoint.name ≠ q.endpoint.name := by
          intro heq
          exact hnodup.1 (List.mem_map.2 ⟨q, hq, heq.symm⟩)
        rw [List.find?_cons_of_neg (by simp only [decide_eq_true_eq, hne, not_false_eq_true])]
        exact ih hnodup.2 hq

namespace Service

theorem get?_of_plan (s : Service TypeExpr) (p : ServicePlan) (h : s.plan = .ok p)
    (e : Endpoint TypeExpr) (he : e ∈ s.endpoints) :
    ∃ q, e.plan = .ok q ∧ p.get? e.name = some q := by
  -- The endpoint has a plan on its own, and it is among those of the service.
  have hmem : e.plan ∈ p.endpoints.map Except.ok := by
    rw [← map_plan_of_plan s p h]
    exact List.mem_map_of_mem he
  rcases List.mem_map.1 hmem with ⟨q, hq, hplan⟩
  refine ⟨q, hplan.symm, ?_⟩
  have hname : q.endpoint.name = e.name := by
    rw [e.endpoint_of_plan q hplan.symm]
  -- No other plan has its name, so the search for the name ends at it.
  rw [ServicePlan.get?, ← hname]
  exact find?_eq_some_of_nodup p.endpoints q (names_nodup_of_plan s p h) hq

theorem get?_eq_none_iff_of_plan (s : Service TypeExpr) (p : ServicePlan) (h : s.plan = .ok p)
    (name : String) : p.get? name = none ↔ name ∉ s.endpoints.map (·.name) := by
  rw [← names_of_plan s p h, ServicePlan.get?, List.find?_eq_none]
  simp only [decide_eq_true_eq, List.mem_map, not_exists, not_and]

/-- The plans of a service, or its failures with the plans that succeeded, are
    those of its positions. In a service with a plan, every endpoint is found
    under its name with the plan it has on its own. -/
theorem plan_decides_positions (s : Service TypeExpr) :
    (∀ p, s.plan = .ok p ↔ s.refusals = [] ∧ p = ⟨s, s.successes⟩) ∧
      (∀ failure, s.plan = .error failure ↔
        s.refusals ≠ [] ∧ failure = ⟨s.name, s.refusals, s.successes⟩) ∧
      s.refusals.length + s.successes.length = s.endpoints.length ∧
      (s.successes.map (·.endpoint.name)).Nodup ∧
      ∀ p, s.plan = .ok p →
        s.endpoints.map Endpoint.plan = p.endpoints.map Except.ok ∧
          (∀ e ∈ s.endpoints, ∃ q, e.plan = .ok q ∧ p.get? e.name = some q) ∧
          ∀ name, p.get? name = none ↔ name ∉ s.endpoints.map (·.name) := by
  refine ⟨?_, ?_, length_refusals_add_length_successes s, names_successes_nodup s, ?_⟩
  · intro p
    -- There is a plan exactly if nothing is refused.
    rw [plan_eq]
    split
    · rename_i hnone
      simp only [Except.ok.injEq, hnone, true_and, eq_comm]
    · rename_i hsome
      simp only [reduceCtorEq, hsome, false_and]
  · intro failure
    rw [plan_eq]
    split
    · rename_i hnone
      simp only [reduceCtorEq, hnone, ne_eq, not_true_eq_false, false_and]
    · rename_i hsome
      simp only [Except.error.injEq, hsome, ne_eq, not_false_eq_true, true_and, eq_comm]
  · intro p h
    exact ⟨map_plan_of_plan s p h, get?_of_plan s p h, get?_eq_none_iff_of_plan s p h⟩

/-- Two endpoints that are planned are both found, and no other name is. -/
theorem plan_decides_positions_of_two :
    let s : Service TypeExpr := ⟨"Store", none,
      [⟨"get", [⟨"id", .path, .primitive .rid⟩], none, some .header, "GET", "/items/{id}"⟩,
        ⟨"put", [⟨"item", .body, .reference ⟨"Item", none⟩⟩], none, none, "PUT", "/items"⟩]⟩
    ∃ p, s.plan = .ok p ∧
      (∀ e ∈ s.endpoints, ∃ q, e.plan = .ok q ∧ p.get? e.name = some q) ∧
      p.get? "delete" = none := by
  intro s
  have h := (plan_decides_positions s).2.2.2.2 ⟨s, s.successes⟩ rfl
  exact ⟨⟨s, s.successes⟩, rfl, h.2.1, (h.2.2 "delete").2 (by decide)⟩

end Service

/-- An endpoint that fails still takes its name: the third one, which has a plan
    of its own, is refused. -/
example :
    let failing : Endpoint TypeExpr := ⟨"get", [], none, some .cookie, "GET", "/"⟩
    let other : Endpoint TypeExpr := ⟨"put", [], none, none, "PUT", "/"⟩
    let again : Endpoint TypeExpr := ⟨"get", [], none, none, "GET", "/"⟩
    (⟨"Store", none, [failing, other, again]⟩ : Service TypeExpr).plan =
      .error ⟨"Store", [.invalidAuth "get" .cookie, .duplicateEndpoint "Store" "get"],
        [⟨other, [], ⟨"putDeserializer", none⟩⟩]⟩ := by
  decide

end ClientPlan
