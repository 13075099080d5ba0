import ClientPlan.Proofs.FileSystem.Effects

/-!
# Walks that Succeed

What a walk finds on its way, and what it needs to find there.

A walk needs directories to pass and an entry to end at, and names that are short
enough to be looked up. Nothing else can stop it. A step up leads back to a directory
that has been passed before, since an address is reached only through those above it.
So a walk ends at an entry even if its last step goes up, and no more than the way
itself has to be looked at.

## Theorems

* `walk_append`: A walk goes on from where its first part ends.
* `above_of_walk`, `isSome_of_walk`, `fits_of_walk`: What a walk has found that
  succeeds.
* `walk_of_passed`: A walk that finds directories to pass and an entry at its end.
* `walk_filter_iff`: A walk without the segments that lead nowhere.
* `way_of_walk`, `way_of_contains`: The way to a directory.
-/

namespace ClientPlan

namespace FileSystem

theorem at?_root (fs : FileSystem) : fs.at? [] = some .directory :=
  if_pos rfl

/-- A walk goes on from where its first part ends. -/
theorem walk_append (fs : FileSystem) (start rest : List Name) (a : Address) :
    fs.walk a (start ++ rest) =
      match fs.walk a start with
      | .error reason => .error reason
      | .ok b => fs.walk b rest := by
  -- By induction on the first part, from wherever it has led so far.
  induction start generalizing a with
  | nil => rfl
  | cons name start ih =>
      rw [List.cons_append, walk, walk]
      rcases fs.at? a with _ | _ | content
      · rfl
      · simp only
        split
        · exact ih a
        split
        · exact ih a.dropLast
        split
        · rfl
        · split
          · rfl
          · exact ih (a ++ [name])
      · rfl

/-- An address that a walk has reached has directories above it. -/
theorem above_of_walk (fs : FileSystem) (names : List Name) (a b : Address)
    (h : fs.walk [] names = .ok a) (hb : b <+: a) (hne : b ≠ a) :
    fs.at? b = some .directory := by
  rcases walk_eq_ok fs names [] a h with ⟨hend, hpassed⟩
  rw [hend, ← Path.follow] at hb hne
  rcases Path.exists_follow_of_prefix names b hb with ⟨start, ⟨rest, hsplit⟩, rfl⟩
  refine hpassed start rest hsplit.symm ?_
  -- All of the names lead to the address itself.
  rintro rfl
  rw [List.append_nil] at hsplit
  exact hne (by rw [hsplit])

/-- Something stands at an address that a walk has reached. -/
theorem isSome_of_walk (fs : FileSystem) (names : List Name) (a : Address)
    (h : fs.walk [] names = .ok a) : (fs.at? a).isSome = true := by
  -- Only the last step matters, and it began in a directory.
  rcases List.eq_nil_or_concat' names with rfl | ⟨front, name, rfl⟩
  · cases h
    rw [at?_root, Option.isSome_some]
  · rw [walk_append] at h
    rcases hfront : fs.walk [] front with reason | parent
    · rw [hfront] at h
      cases h
    rw [hfront] at h
    simp only at h
    have hparent := (walk_cons_eq_ok fs name [] parent a h).1
    rw [walk, hparent] at h
    simp only at h
    split at h
    · cases h
      rw [hparent, Option.isSome_some]
    split at h
    · -- The directory above is the root, or it has been passed.
      cases h
      by_cases hroot : parent.dropLast = parent
      · rw [hroot, hparent, Option.isSome_some]
      · rw [above_of_walk fs front parent _ hfront (List.dropLast_prefix parent) hroot,
          Option.isSome_some]
    split at h
    · cases h
    · split at h
      · cases h
      · rename_i entry hentry
        cases h
        rw [hentry, Option.isSome_some]

/-- No name on a walk that succeeds is too long. -/
theorem fits_of_walk (fs : FileSystem) (names : List Name) (a b : Address)
    (h : fs.walk a names = .ok b) : ∀ name ∈ names, fits name = true := by
  induction names generalizing a with
  | nil =>
      intro name hname
      cases hname
  | cons first names ih =>
      have hnext := (walk_cons_eq_ok fs first names a b h).2
      have hfirst : fits first = true := by
        have hdirectory := (walk_cons_eq_ok fs first names a b h).1
        rw [walk, hdirectory] at h
        simp only at h
        -- The names that are not looked up are short.
        split at h
        · rename_i hstay
          rcases hstay with rfl | rfl
          · decide
          · decide
        split at h
        · rename_i hup
          rw [hup]
          decide
        split at h
        · cases h
        · rename_i hfits
          simpa only [Bool.not_eq_true', Bool.not_eq_false] using hfits
      intro name hname
      rcases List.mem_cons.1 hname with rfl | hname
      · exact hfirst
      · exact ih _ hnext name hname

/-- A walk succeeds if it finds a directory to pass at each of its segments and
    something at its end. -/
theorem walk_of_passed (fs : FileSystem) (names : List Name) (a : Address)
    (hpassed : ∀ start rest, names = start ++ rest → rest ≠ [] →
      fs.at? (start.foldl Path.further a) = some .directory)
    (hend : (fs.at? (names.foldl Path.further a)).isSome = true)
    (hfits : ∀ name ∈ names, fits name = true) :
    fs.walk a names = .ok (names.foldl Path.further a) := by
  induction names generalizing a with
  | nil => rfl
  | cons name names ih =>
      have ha : fs.at? a = some .directory := hpassed [] _ rfl (List.cons_ne_nil name names)
      have hrest := ih (Path.further a name)
        (fun start rest hsplit hrest =>
          hpassed (name :: start) rest (by rw [hsplit, List.cons_append]) hrest)
        hend (fun n hn => hfits n (List.mem_cons_of_mem name hn))
      rw [walk, ha, List.foldl_cons]
      unfold Path.further at hrest ⊢
      by_cases hstay : name = [] ∨ name = Path.here
      · simp only [if_pos hstay] at hrest ⊢
        exact hrest
      by_cases hup : name = Path.up
      · simp only [if_neg hstay, if_pos hup] at hrest ⊢
        exact hrest
      · simp only [if_neg hstay, if_neg hup, hfits name List.mem_cons_self, Bool.not_true,
          Bool.false_eq_true, if_false] at hrest ⊢
        -- What the name leads to is passed next, or it is the end of the walk.
        have hnext : (fs.at? (a ++ [name])).isSome = true := by
          have hfurther : Path.further a name = a ++ [name] := by
            rw [Path.further, if_neg hstay, if_neg hup]
          cases names with
          | nil =>
              rw [List.foldl_cons, List.foldl_nil, hfurther] at hend
              exact hend
          | cons next names =>
              have hpass := hpassed [name] (next :: names) rfl (List.cons_ne_nil next names)
              rw [List.foldl_cons, List.foldl_nil, hfurther] at hpass
              rw [hpass, Option.isSome_some]
        rcases hentry : fs.at? (a ++ [name]) with _ | entry
        · rw [hentry] at hnext
          cases hnext
        · exact hrest

/-- Segments that lead nowhere can be left out of a walk, unless they come last. -/
theorem walk_filter_iff (fs : FileSystem) (front : List Name) (last : Name) (a b : Address)
    (hlast : last ≠ [] ∧ last ≠ Path.here) :
    fs.walk a ((front ++ [last]).filter fun name => name ≠ [] ∧ name ≠ Path.here) = .ok b ↔
      fs.walk a (front ++ [last]) = .ok b := by
  induction front generalizing a with
  | nil =>
      have hself : ([last].filter fun name => name ≠ [] ∧ name ≠ Path.here) = [last] :=
        List.filter_eq_self.2 (List.forall_mem_singleton.2 (decide_eq_true hlast))
      rw [List.nil_append, hself]
  | cons name front ih =>
      rw [List.cons_append]
      by_cases hstay : name = [] ∨ name = Path.here
      · rw [List.filter_cons_of_neg (by
          rw [decide_eq_true_eq, ← not_or]
          exact not_not.2 hstay), ih]
        constructor
        · intro hwalk
          -- What follows has found a directory to start from.
          have ha : fs.at? a = some .directory := by
            rcases front with _ | ⟨next, front⟩
            · exact (walk_cons_eq_ok fs last [] a b hwalk).1
            · exact (walk_cons_eq_ok fs next (front ++ [last]) a b hwalk).1
          rw [walk, ha]
          simp only [if_pos hstay]
          exact hwalk
        · intro hwalk
          have hrest := (walk_cons_eq_ok fs name _ a b hwalk).2
          rwa [Path.further, if_pos hstay] at hrest
      · rw [List.filter_cons_of_pos (by
          rw [decide_eq_true_eq, ← not_or]
          exact hstay), walk, walk]
        rcases fs.at? a with _ | _ | content
        · simp only [reduceCtorEq]
        · simp only [if_neg hstay]
          split
          · exact ih _
          · split
            · simp only [reduceCtorEq]
            · split
              · simp only [reduceCtorEq]
              · exact ih _
        · simp only [reduceCtorEq]

/-- Each beginning of a path, empty segments included, leads to a part of its way. -/
theorem follow_mem_way (cwd p : Path) (start rest : List Name)
    (h : Path.segments (Path.join cwd p) = start ++ rest) :
    Path.follow start ∈ Path.way cwd p := by
  refine (Path.mem_way_iff cwd p _).2 ⟨start.filter fun n => n ≠ [], ?_, Path.follow_filter start⟩
  rw [Path.names, h, List.filter_append]
  exact List.prefix_append _ _

/-- A path that leads to a directory has passed directories only. -/
theorem way_of_walk (fs : FileSystem) (cwd p : Path) (a : Address)
    (h : fs.walk [] (Path.segments (Path.join cwd p)) = .ok a)
    (ha : fs.at? a = some .directory) : ∀ b ∈ Path.way cwd p, fs.at? b = some .directory := by
  rcases walk_eq_ok fs _ [] a h with ⟨hend, hpassed⟩
  intro b hb
  rcases (Path.mem_way_iff cwd p b).1 hb with ⟨start, hstart, rfl⟩
  rw [Path.names, List.prefix_filter_iff] at hstart
  rcases hstart with ⟨segments, ⟨rest, hrest⟩, rfl⟩
  rw [Path.follow_filter]
  by_cases hnil : rest = []
  · rw [hnil, List.append_nil] at hrest
    rw [hrest, Path.follow, ← hend]
    exact ha
  · exact hpassed segments rest hrest.symm hnil

/-- A path that leads to an entry that is no file has passed directories only. -/
theorem way_of_contains (fs : FileSystem) (cwd p : Path) (h : fs.contains cwd p = true)
    (hend : fs.at? (Path.address cwd p) = none ∨ fs.at? (Path.address cwd p) = some .directory) :
    ∀ b ∈ Path.way cwd p, fs.at? b = some .directory := by
  unfold contains entry? at h
  rcases hresolve : fs.resolve cwd p with reason | a
  · rw [hresolve] at h
    cases h
  rw [hresolve] at h
  have haddress := resolve_eq_ok fs cwd p a hresolve
  rw [← haddress] at hend
  -- The path leads to something, and this is no file.
  have hdirectory := hend.resolve_left (Option.ne_none_iff_isSome.2 h)
  unfold resolve at hresolve
  split at hresolve
  · cases hresolve
  split at hresolve
  · cases hresolve
  · exact way_of_walk fs cwd p a hresolve hdirectory

end FileSystem

end ClientPlan
