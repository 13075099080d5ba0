import Mathlib.Data.List.Nodup
import ClientPlan.Generation.Output

/-!
# Claims on Plan Files

Which of some planned services keeps which plan file, said by their positions.

The assignment of files walks along the planned services with the claims made so
far. `Output.assignment` says what it decides without the walk: a service keeps its
file unless that of one in front of it has the same key, and otherwise collides with
the first such service. What the walk knows of the services behind it is the first one
of each key, which is the invariant of `assignAfter_eq_mapIdx`.

Two outputs never have the same key, and with it neither the same path nor the same
planned service.

## Main definitions

* `Output.keyOf`: The key of a planned service's file.
* `Output.keeper?`: The first of some services that has the key of another one.
* `Output.assignment`: What becomes of a planned service behind some others.

## Theorems

* `claimant?_eq_keeper?_step`: What the walk knows after one more service.
* `assign_eq_mapIdx`: The walk decides all positions as said here.
* `keys_outputs_nodup`: The outputs have different keys.
* `paths_outputs_nodup`, `planned_outputs_nodup`: They have different paths and are
  different services.
-/

namespace ClientPlan

namespace Output

/-- The key of the file that a planned service is to be written to. -/
def keyOf (cwd outputDir : Path) (base : Option Path) (p : PlannedService) : Path :=
  key cwd (pathOf cwd outputDir base p)

/-- The first of some planned services whose file has a given key. -/
def keeper? (cwd outputDir : Path) (base : Option Path) (before : List PlannedService)
    (file : Path) : Option PlannedService :=
  before.find? fun q => keyOf cwd outputDir base q = file

/-- What becomes of a planned service when some others stand in front of it. -/
def assignment (cwd outputDir : Path) (base : Option Path) (before : List PlannedService)
    (p : PlannedService) : Assignment :=
  match keeper? cwd outputDir base before (keyOf cwd outputDir base p) with
  | some earlier => .collision ⟨p, pathOf cwd outputDir base p, earlier⟩
  | none => .output ⟨pathOf cwd outputDir base p, p⟩

/-- An assignment as an output, if it is one. -/
def output? : Assignment → Option Output
  | .output o => some o
  | .collision _ => none

/-- An assignment as a collision, if it is one. -/
def collision? : Assignment → Option Collision
  | .output _ => none
  | .collision c => some c

theorem outputs_eq_filterMap (assignments : List Assignment) :
    outputs assignments = assignments.filterMap output? := by
  induction assignments with
  | nil => rfl
  | cons a assignments ih =>
      cases a with
      | output o => rw [outputs, ih]; rfl
      | collision c => rw [outputs, ih]; rfl

theorem collisions_eq_filterMap (assignments : List Assignment) :
    collisions assignments = assignments.filterMap collision? := by
  induction assignments with
  | nil => rfl
  | cons a assignments ih =>
      cases a with
      | output o => rw [collisions, ih]; rfl
      | collision c => rw [collisions, ih]; rfl

variable {cwd outputDir : Path} {base : Option Path}

theorem keeper?_append_singleton (before : List PlannedService) (p : PlannedService)
    (file : Path) :
    keeper? cwd outputDir base (before ++ [p]) file =
      (keeper? cwd outputDir base before file).or
        (if keyOf cwd outputDir base p = file then some p else none) := by
  rw [keeper?, List.find?_append, List.find?_singleton, keeper?]
  simp only [decide_eq_true_eq]

/-- A service that keeps its file is what the walk knows of it from then on. -/
theorem claimant?_keeps (claims : List (Path × PlannedService)) (before : List PlannedService)
    (p : PlannedService)
    (hclaims : ∀ file, claimant? file claims = keeper? cwd outputDir base before file)
    (hnone : keeper? cwd outputDir base before (keyOf cwd outputDir base p) = none)
    (file : Path) :
    claimant? file ((keyOf cwd outputDir base p, p) :: claims) =
      keeper? cwd outputDir base (before ++ [p]) file := by
  rw [claimant?, keeper?_append_singleton, hclaims]
  by_cases hfile : keyOf cwd outputDir base p = file
  · rw [if_pos hfile, if_pos hfile, ← hfile, hnone, Option.none_or]
  · rw [if_neg hfile, if_neg hfile, Option.or_none]

/-- A service that collides is not the first one with its file. -/
theorem keeper?_collides (before : List PlannedService) (p earlier : PlannedService)
    (hsome : keeper? cwd outputDir base before (keyOf cwd outputDir base p) = some earlier)
    (file : Path) :
    keeper? cwd outputDir base (before ++ [p]) file = keeper? cwd outputDir base before file := by
  rw [keeper?_append_singleton]
  by_cases hfile : keyOf cwd outputDir base p = file
  · rw [← hfile, hsome, Option.some_or]
  · rw [if_neg hfile, Option.or_none]

/-- The invariant of the walk: its claims are the first services of their files
    among those it has passed. -/
theorem assignAfter_eq_mapIdx (planned : List PlannedService)
    (claims : List (Path × PlannedService)) (before : List PlannedService)
    (hclaims : ∀ file, claimant? file claims = keeper? cwd outputDir base before file) :
    assignAfter cwd outputDir base claims planned =
      planned.mapIdx fun i p => assignment cwd outputDir base (before ++ planned.take i) p := by
  induction planned generalizing claims before with
  | nil => rfl
  | cons p planned ih =>
      -- The services in front of a later position are `before`, this one and some more.
      have hshift : ∀ i, before ++ (p :: planned).take (i + 1) = before ++ [p] ++ planned.take i :=
        fun i => by rw [List.take_succ_cons, List.append_cons]
      simp only [List.mapIdx_cons, List.take_zero, List.append_nil, hshift]
      have hkeeper := hclaims (keyOf cwd outputDir base p)
      rw [keyOf] at hkeeper
      rcases hsome : keeper? cwd outputDir base before (keyOf cwd outputDir base p)
        with _ | earlier
      · -- The claims know no service with this file, so this one makes a claim.
        rw [← keyOf, hsome] at hkeeper
        have hfirst : assignment cwd outputDir base before p =
            .output ⟨pathOf cwd outputDir base p, p⟩ := by
          rw [assignment, hsome]
        rw [assignAfter, ← keyOf, hkeeper, hfirst]
        simp only
        rw [ih _ (before ++ [p]) (claimant?_keeps claims before p hclaims hsome)]
      · rw [← keyOf, hsome] at hkeeper
        have hfirst : assignment cwd outputDir base before p =
            .collision ⟨p, pathOf cwd outputDir base p, earlier⟩ := by
          rw [assignment, hsome]
        rw [assignAfter, ← keyOf, hkeeper, hfirst]
        simp only
        rw [ih claims (before ++ [p])
          (fun file => by rw [hclaims, keeper?_collides before p earlier hsome])]

/-- What becomes of each planned service depends on those in front of it. -/
theorem assign_eq_mapIdx (planned : List PlannedService) :
    assign cwd outputDir base planned =
      planned.mapIdx fun i p => assignment cwd outputDir base (planned.take i) p := by
  rw [assign, assignAfter_eq_mapIdx planned [] [] (fun _ => rfl)]
  simp only [List.nil_append]

/-- The invariant of the walk: whatever is still written has a key that is new, both
    to the claims and among the outputs to come. -/
theorem keys_outputs_assignAfter (planned : List PlannedService)
    (claims : List (Path × PlannedService)) :
    (∀ o ∈ outputs (assignAfter cwd outputDir base claims planned),
        claimant? (key cwd o.path) claims = none) ∧
      ((outputs (assignAfter cwd outputDir base claims planned)).map fun o =>
        key cwd o.path).Nodup := by
  induction planned generalizing claims with
  | nil =>
      refine ⟨?_, List.nodup_nil⟩
      intro o ho
      cases ho
  | cons p planned ih =>
      rw [assignAfter]
      rcases hclaim : claimant? (key cwd (pathOf cwd outputDir base p)) claims with _ | earlier
      · rcases ih ((key cwd (pathOf cwd outputDir base p), p) :: claims) with ⟨hnew, hnodup⟩
        -- A key that is new after this service is new before it, and is not its own.
        have hrest : ∀ o ∈ outputs (assignAfter cwd outputDir base
              ((key cwd (pathOf cwd outputDir base p), p) :: claims) planned),
            key cwd (pathOf cwd outputDir base p) ≠ key cwd o.path ∧
              claimant? (key cwd o.path) claims = none := by
          intro o ho
          have h := hnew o ho
          rw [claimant?] at h
          split at h
          · cases h
          · rename_i hne
            exact ⟨hne, h⟩
        simp only [outputs, List.forall_mem_cons, List.map_cons, List.nodup_cons]
        refine ⟨⟨hclaim, fun o ho => (hrest o ho).2⟩, ?_, hnodup⟩
        intro hmem
        rcases List.mem_map.1 hmem with ⟨o, ho, hkey⟩
        exact (hrest o ho).1 hkey.symm
      · exact ih claims

/-- An output is one of the planned services, under the path that it has. -/
theorem mem_outputs_assignAfter (planned : List PlannedService)
    (claims : List (Path × PlannedService)) (o : Output)
    (h : o ∈ outputs (assignAfter cwd outputDir base claims planned)) :
    o.planned ∈ planned ∧ o.path = pathOf cwd outputDir base o.planned := by
  -- By induction on the services, whatever has been claimed in front of them.
  induction planned generalizing claims with
  | nil => cases h
  | cons p planned ih =>
      rw [assignAfter] at h
      rcases hclaim : claimant? (key cwd (pathOf cwd outputDir base p)) claims with _ | earlier
      · simp only [hclaim, outputs, List.mem_cons] at h
        rcases h with rfl | h
        · exact ⟨List.mem_cons_self, rfl⟩
        · exact ⟨List.mem_cons_of_mem p (ih _ h).1, (ih _ h).2⟩
      · simp only [hclaim, outputs] at h
        exact ⟨List.mem_cons_of_mem p (ih _ h).1, (ih _ h).2⟩

variable (cwd outputDir base)

/-- No two outputs have the same key. -/
theorem keys_outputs_nodup (planned : List PlannedService) :
    ((outputs (assign cwd outputDir base planned)).map fun o => key cwd o.path).Nodup :=
  (keys_outputs_assignAfter planned []).2

/-- No two outputs have the same path. -/
theorem paths_outputs_nodup (planned : List PlannedService) :
    ((outputs (assign cwd outputDir base planned)).map (·.path)).Nodup := by
  -- Equal paths would have equal keys.
  have hkeys : ((outputs (assign cwd outputDir base planned)).map (·.path)).map (key cwd) =
      (outputs (assign cwd outputDir base planned)).map fun o => key cwd o.path := List.map_map
  have h := keys_outputs_nodup cwd outputDir base planned
  rw [← hkeys] at h
  exact h.of_map

/-- No planned service is written twice. -/
theorem planned_outputs_nodup (planned : List PlannedService) :
    ((outputs (assign cwd outputDir base planned)).map (·.planned)).Nodup := by
  -- The path of an output follows from its service.
  have hpaths : (outputs (assign cwd outputDir base planned)).map (·.path) =
      ((outputs (assign cwd outputDir base planned)).map (·.planned)).map
        (pathOf cwd outputDir base) := by
    rw [List.map_map]
    refine List.map_congr_left fun o ho => ?_
    exact (mem_outputs_assignAfter planned [] o ho).2
  have h := paths_outputs_nodup cwd outputDir base planned
  rw [hpaths] at h
  exact h.of_map

end Output

end ClientPlan
