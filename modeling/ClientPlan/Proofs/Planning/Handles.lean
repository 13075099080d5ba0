import Mathlib.Data.List.Nodup
import ClientPlan.Proofs.Planning.Placement
import ClientPlan.Proofs.Planning.Positions

/-!
# Handles of a Service

The names under which generated code refers to serializers and deserializers.

A handle is the name of an endpoint with one of two endings, so handles of different
endpoints could meet only if an ending of one were part of the name of another one.
The longer ending is not the shorter one with something in front: they differ in the
case of one letter, and that is the letter at which two handles of one length would
have to agree (`append_serializer_ne`). So no choice of endpoint names makes two
handles equal, not even names that end like handles themselves.

Whether an endpoint has a serializer at all is decided by its declaration. Placing an
argument never moves it to another part of the request, and the token goes into a
header, so the placements in the body are those of the arguments declared there, of
which a plan has one at most.

## Main definitions

* `EndpointPlan.handles`, `ServicePlan.handles`: The handles of a plan.

## Theorems

* `filter_body_of_placed`: The placements in the body.
* `append_serializer_ne`: The two kinds of handles are apart.
* `instructions_in_body`, `body_of_plan`: The body of a planned endpoint.
* `handles_nodup_of_plan`: The handles of a planned service.
-/

namespace ClientPlan

/-- The placements in the body are those of the arguments that are declared there,
    each by the serializer of the endpoint. -/
theorem filter_body_of_placed (endpoint : String) (args : List (Argument TypeExpr))
    (instructions : List Instruction)
    (h : List.Forall₂ (fun a i => a.place endpoint = .ok i) args instructions) :
    (instructions.filter fun i => i.slot = .body) =
      (args.filter fun a => a.location = .body).map fun a =>
        a.instruction (.body endpoint a.type) false := by
  -- By induction on the arguments and their placements, side by side.
  induction h with
  | nil => rfl
  | @cons a i args instructions hplace _ ih =>
      by_cases hbody : a.location = .body
      · rw [a.place_of_body endpoint hbody] at hplace
        cases hplace
        have hslot : (a.instruction (.body endpoint a.type) false).slot = .body := by
          simp only [Argument.instruction, hbody, Location.slot]
        rw [List.filter_cons_of_pos (by rwa [decide_eq_true_eq]),
          List.filter_cons_of_pos (by rwa [decide_eq_true_eq]), List.map_cons, ih]
      · -- No other location belongs to the body.
        have hslot : i.slot ≠ .body := by
          rw [(a.placedBy_of_place endpoint i hplace).slot]
          cases hlocation : a.location with
          | body => exact absurd hlocation hbody
          | _ => exact Slot.noConfusion
        rw [List.filter_cons_of_neg (by rwa [decide_eq_true_eq]),
          List.filter_cons_of_neg (by rwa [decide_eq_true_eq]), ih]

namespace EndpointPlan

/-- The handles of an endpoint: that of its serializer, if it has a body, and that of
    its deserializer. -/
def handles (p : EndpointPlan) : List String :=
  p.bodyInstruction?.toList.map (·.encoding.name) ++ [p.decoder.handle]

end EndpointPlan

namespace ServicePlan

/-- The handles of all endpoints of a service. -/
def handles (p : ServicePlan) : List String :=
  p.endpoints.flatMap EndpointPlan.handles

end ServicePlan

namespace Endpoint

/-- The body of a planned endpoint: there is one placement in it if an argument is
    declared as the body, and there is none otherwise. -/
theorem instructions_in_body (e : Endpoint TypeExpr) (q : EndpointPlan) (h : e.plan = .ok q) :
    (q.instructions.filter fun i => i.slot = .body) = q.bodyInstruction?.toList ∧
      q.bodyInstruction? = e.bodies.head?.map fun a =>
        a.instruction (.body e.name a.type) false := by
  rcases (decided_iff_plan e (.ok q)).2 h with _ | _ | _ | _ | ⟨instructions, hconsistent, hplaced⟩
  -- The token is not in the body, so it is passed over.
  have htoken : ((tokenInstructions e.auth).filter fun i => i.slot = .body) = [] := by
    rcases hconsistent.auth with hauth | hauth
    · rw [hauth]
      rfl
    · rw [hauth]
      rfl
  have hfilter : ((tokenInstructions e.auth ++ instructions).filter fun i => i.slot = .body) =
      e.bodies.map fun a => a.instruction (.body e.name a.type) false := by
    rw [List.filter_append, htoken, List.nil_append,
      filter_body_of_placed e.name e.args instructions hplaced, bodies]
  have hhead : EndpointPlan.bodyInstruction? ⟨e, tokenInstructions e.auth ++ instructions,
      ⟨e.name ++ "Deserializer", e.returns⟩⟩ =
        e.bodies.head?.map fun a => a.instruction (.body e.name a.type) false := by
    rw [EndpointPlan.bodyInstruction?, ← List.head?_filter, hfilter, List.head?_map]
  refine ⟨?_, hhead⟩
  rw [hhead, hfilter]
  -- More than one body would have been refused.
  have hone := hconsistent.bodies
  rcases hbodies : e.bodies with _ | ⟨a, _ | ⟨b, rest⟩⟩
  · rfl
  · rfl
  · rw [hbodies, List.length_cons, List.length_cons] at hone
    omega

theorem decoder_of_plan (e : Endpoint TypeExpr) (q : EndpointPlan) (h : e.plan = .ok q) :
    q.decoder.handle = e.name ++ "Deserializer" := by
  rcases (decided_iff_plan e (.ok q)).2 h with _ | _ | _ | _ | _
  rfl

/-- The handles of a planned endpoint, by its name. -/
theorem mem_handles_of_plan (e : Endpoint TypeExpr) (q : EndpointPlan) (h : e.plan = .ok q)
    (handle : String) (hmem : handle ∈ q.handles) :
    handle = e.name ++ "Serializer" ∨ handle = e.name ++ "Deserializer" := by
  rw [EndpointPlan.handles, List.mem_append, List.mem_map, List.mem_singleton] at hmem
  rcases hmem with ⟨i, hi, rfl⟩ | rfl
  · rw [Option.mem_toList, (instructions_in_body e q h).2, Option.map_eq_some_iff] at hi
    rcases hi with ⟨a, -, rfl⟩
    exact Or.inl rfl
  · exact Or.inr (decoder_of_plan e q h)

end Endpoint

/-- No serializer has the name of a deserializer. -/
theorem append_serializer_ne (a b : String) : a ++ "Serializer" ≠ b ++ "Deserializer" := by
  intro h
  have hlist := congrArg String.toList h
  -- Behind the same number of letters, one has a capital where the other has none.
  have hsplit : b ++ "Deserializer" = b ++ "De" ++ "serializer" := by
    rw [String.append_assoc]
    rfl
  rw [hsplit, String.toList_append, String.toList_append] at hlist
  have htail := (List.append_inj' hlist (by decide)).2
  exact absurd htail (by decide)

/-- Endpoints whose handles meet have one name. -/
theorem name_eq_of_handles (e e' : Endpoint TypeExpr) (q q' : EndpointPlan) (h : e.plan = .ok q)
    (h' : e'.plan = .ok q') (handle : String) (hmem : handle ∈ q.handles)
    (hmem' : handle ∈ q'.handles) : e.name = e'.name := by
  rcases e.mem_handles_of_plan q h handle hmem with rfl | rfl
  · rcases e'.mem_handles_of_plan q' h' _ hmem' with heq | heq
    · exact (String.append_left_inj _).1 heq
    · exact absurd heq (append_serializer_ne e.name e'.name)
  · rcases e'.mem_handles_of_plan q' h' _ hmem' with heq | heq
    · exact absurd heq.symm (append_serializer_ne e'.name e.name)
    · exact (String.append_left_inj _).1 heq

theorem Endpoint.handles_nodup (e : Endpoint TypeExpr) (q : EndpointPlan) (h : e.plan = .ok q) :
    q.handles.Nodup := by
  rw [EndpointPlan.handles, e.decoder_of_plan q h, (e.instructions_in_body q h).2]
  rcases e.bodies.head? with _ | a
  · exact List.nodup_singleton _
  · -- The serializer stands in front of the deserializer of the same name.
    have hnotMem : e.name ++ "Serializer" ∉ [e.name ++ "Deserializer"] := by
      rw [List.mem_singleton]
      exact append_serializer_ne e.name e.name
    exact List.nodup_cons.2 ⟨hnotMem, List.nodup_singleton _⟩

/-- A planned endpoint has a body exactly if an argument is declared as the body, and
    that argument is what is in it. -/
theorem Endpoint.body_of_plan (e : Endpoint TypeExpr) (q : EndpointPlan) (h : e.plan = .ok q) :
    (q.bodyInstruction?.isSome = true ↔ ∃ a ∈ e.args, a.location = .body) ∧
      ∀ i, q.bodyInstruction? = some i →
        i.argument ∈ e.args ∧ i.argument.location = .body ∧
          i.encoding.name = e.name ++ "Serializer" := by
  -- The instruction is that of the first argument in the body.
  have hbody := (e.instructions_in_body q h).2
  constructor
  · rw [hbody, Option.isSome_map, List.isSome_head?]
    simp only [Endpoint.bodies, ne_eq, List.filter_eq_nil_iff, decide_eq_true_eq, not_forall,
      not_not, exists_prop]
  · intro i hi
    rw [hbody, Option.map_eq_some_iff] at hi
    rcases hi with ⟨a, ha, rfl⟩
    have hmem := List.mem_filter.1 (List.mem_of_mem_head? ha)
    exact ⟨hmem.1, of_decide_eq_true hmem.2, rfl⟩

namespace Service

/-- Each plan of a planned service is the plan of an endpoint. -/
theorem exists_endpoint_of_mem_plan (s : Service TypeExpr) (p : ServicePlan) (h : s.plan = .ok p)
    (q : EndpointPlan) (hq : q ∈ p.endpoints) : ∃ e : Endpoint TypeExpr, e.plan = .ok q := by
  have hmem : Except.ok q ∈ s.endpoints.map Endpoint.plan := by
    rw [map_plan_of_plan s p h]
    exact List.mem_map_of_mem hq
  rcases List.mem_map.1 hmem with ⟨e, -, hplan⟩
  exact ⟨e, hplan⟩

/-- Different endpoints of a planned service have different names, so their handles do
    not meet. -/
theorem pairwise_handles_of_plan (s : Service TypeExpr) (p : ServicePlan) (h : s.plan = .ok p) :
    p.endpoints.Pairwise fun q q' => q.handles.Disjoint q'.handles := by
  have hnames := List.pairwise_map.1 (names_nodup_of_plan s p h)
  refine hnames.imp_of_mem ?_
  intro q q' hq hq' hne handle hmem hmem'
  rcases exists_endpoint_of_mem_plan s p h q hq with ⟨e, hplan⟩
  rcases exists_endpoint_of_mem_plan s p h q' hq' with ⟨e', hplan'⟩
  rw [e.endpoint_of_plan q hplan, e'.endpoint_of_plan q' hplan'] at hne
  exact hne (name_eq_of_handles e e' q q' hplan hplan' handle hmem hmem')

/-- In a planned service each endpoint has at most one placement in the body, namely
    one if an argument is declared as the body, and no two handles are equal. -/
theorem handles_nodup_of_plan (s : Service TypeExpr) (p : ServicePlan) (h : s.plan = .ok p) :
    p.endpoints.map (·.endpoint) = s.endpoints ∧
      (∀ q ∈ p.endpoints,
        (q.instructions.filter fun i => i.slot = .body) = q.bodyInstruction?.toList ∧
          (q.bodyInstruction?.isSome = true ↔ ∃ a ∈ q.endpoint.args, a.location = .body) ∧
          (∀ i, q.bodyInstruction? = some i →
            i.argument ∈ q.endpoint.args ∧ i.argument.location = .body ∧
              i.encoding.name = q.endpoint.name ++ "Serializer") ∧
          q.decoder.handle = q.endpoint.name ++ "Deserializer") ∧
      p.handles.Nodup := by
  refine ⟨map_endpoint_of_map_plan s.endpoints p.endpoints (map_plan_of_plan s p h), ?_, ?_⟩
  · intro q hq
    rcases exists_endpoint_of_mem_plan s p h q hq with ⟨e, hplan⟩
    rcases e.body_of_plan q hplan with ⟨hdeclared, hbody⟩
    rw [e.endpoint_of_plan q hplan]
    exact ⟨(e.instructions_in_body q hplan).1, hdeclared, hbody, e.decoder_of_plan q hplan⟩
  · -- The handles of one endpoint differ, and so do those of two.
    rw [ServicePlan.handles, List.nodup_flatMap]
    refine ⟨fun q hq => ?_, pairwise_handles_of_plan s p h⟩
    rcases exists_endpoint_of_mem_plan s p h q hq with ⟨e, hplan⟩
    exact e.handles_nodup q hplan

/-- Two endpoints with bodies, one of whose names ends like the start of a handle. -/
theorem handles_nodup_of_lookalikes :
    let item : Argument TypeExpr := ⟨"item", .body, .primitive .string⟩
    let put : Endpoint TypeExpr := ⟨"put", [item], none, none, "PUT", "/"⟩
    let putDe : Endpoint TypeExpr := ⟨"putDe", [item], none, none, "PUT", "/"⟩
    ∃ p, (⟨"Store", none, [put, putDe]⟩ : Service TypeExpr).plan = .ok p ∧
      p.handles = ["putSerializer", "putDeserializer", "putDeSerializer", "putDeDeserializer"] ∧
      p.handles.Nodup := by
  intro item put putDe
  let s : Service TypeExpr := ⟨"Store", none, [put, putDe]⟩
  exact ⟨⟨s, s.successes⟩, rfl, by decide, (handles_nodup_of_plan s ⟨s, s.successes⟩ rfl).2.2⟩

end Service

end ClientPlan
