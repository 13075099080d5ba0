import Mathlib.Data.List.DropRight
import ClientPlan.Proofs.FileSystem.Ways

/-!
# Addresses and Normal Paths

The normal spelling of a path says where the path leads.

Both are found by going along the segments of a path, and differ in what they keep
while they do so: a normal spelling keeps its names in reverse, and an address in
order. Seen from the root they agree. Seen from a directory they agree as long as
the spelling does not begin by going up, and then the path leads to something in
or below that directory.

What the spelling of an absolute path says beyond its address is whether the path
begins with exactly two slashes, which makes no difference to where it leads.

## Main definitions

* `Path.IsStep`: A name that leads further down.
* `Path.Inward`: A path that stays below the directory it is seen from.

## Theorems

* `normalSegments_rooted`, `foldl_further_of_notMem_up`: Normal segments, seen from
  the root and from a directory.
* `isStep_of_mem_address`: An address consists of names that lead down.
* `absolute_eq`, `names_absolute`, `address_absolute`: The normal spelling of a path
  seen from the root.
* `absolute_eq_of_address`: Paths with one address differ in their slashes only.
* `address_eq_directory`: The last step to an address.
* `address_join`: The address of a path in a directory.
-/

namespace ClientPlan

namespace Path

/-- A name that leads one directory further down. -/
def IsStep (name : Name) : Prop :=
  name ≠ [] ∧ name ≠ here ∧ name ≠ up ∧ '/' ∉ name

/-- A path that does not start at the root, and never climbs above the directory it
    is seen from before its last name. -/
def Inward (p : Path) : Prop :=
  isAbsolute p = false ∧ up ∉ normalSegments false (segments (directory p))

/-- Seen from the root, one more segment is the same step in a normal spelling and
    in an address, and no spelling that starts at the root goes up. -/
theorem push_rooted (acc : List Name) (name : Name) (h : up ∉ acc) :
    (push true acc name).reverse = further acc.reverse name ∧ up ∉ push true acc name := by
  unfold push further
  by_cases hstay : name = [] ∨ name = here
  · rw [if_pos hstay, if_pos hstay]
    exact ⟨rfl, h⟩
  rw [if_neg hstay, if_neg hstay]
  by_cases hup : name = up
  · rw [if_pos hup, if_pos hup]
    cases acc with
    | nil => exact ⟨rfl, h⟩
    | cons last rest =>
        rw [List.mem_cons, not_or] at h
        simp only [if_neg (Ne.symm h.1), List.reverse_cons, List.dropLast_concat]
        exact ⟨trivial, h.2⟩
  · rw [if_neg hup, if_neg hup, List.reverse_cons, List.mem_cons, not_or]
    exact ⟨rfl, Ne.symm hup, h⟩

theorem foldl_push_rooted (segments acc : List Name) (h : up ∉ acc) :
    (segments.foldl (push true) acc).reverse = segments.foldl further acc.reverse := by
  induction segments generalizing acc with
  | nil => rfl
  | cons name segments ih =>
      rcases push_rooted acc name h with ⟨hstep, hup⟩
      rw [List.foldl_cons, List.foldl_cons, ih _ hup, hstep]

theorem normalSegments_rooted (segments : List Name) :
    normalSegments true segments = follow segments :=
  foldl_push_rooted segments [] List.not_mem_nil

/-- A step up that could not be taken back stays in a normal spelling. -/
theorem up_mem_push (acc : List Name) (name : Name) (h : up ∈ acc) : up ∈ push false acc name := by
  unfold push
  split
  · exact h
  split
  · cases acc with
    | nil => cases h
    | cons last rest =>
        -- Only a name that is no step up is taken back.
        by_cases hlast : last = up
        · simp only [if_pos hlast]
          exact List.mem_cons_self
        · simp only [if_neg hlast]
          exact (List.mem_cons.1 h).resolve_left (Ne.symm hlast)
  · exact List.mem_cons_of_mem name h

theorem up_mem_foldl_push (segments acc : List Name) (h : up ∈ acc) :
    up ∈ segments.foldl (push false) acc := by
  induction segments generalizing acc with
  | nil => exact h
  | cons name segments ih => exact ih _ (up_mem_push acc name h)

/-- Seen from a directory, one more segment is the same step as long as it does not
    lead above that directory. -/
theorem push_inward (acc : List Name) (name : Name) (a : Address) (h : up ∉ push false acc name) :
    further (a ++ acc.reverse) name = a ++ (push false acc name).reverse := by
  unfold push at h ⊢
  unfold further
  by_cases hstay : name = [] ∨ name = here
  · rw [if_pos hstay, if_pos hstay]
  rw [if_neg hstay] at h
  rw [if_neg hstay, if_neg hstay]
  by_cases hup : name = up
  · rw [if_pos hup] at h
    rw [if_pos hup, if_pos hup]
    cases acc with
    | nil => exact absurd List.mem_cons_self h
    | cons last rest =>
        -- A step up takes back the last name, unless it is a step up itself.
        by_cases hlast : last = up
        · simp only [if_pos hlast, List.mem_cons, true_or, not_true_eq_false] at h
        · simp only [if_neg hlast, List.reverse_cons]
          rw [← List.append_assoc, List.dropLast_concat]
  · rw [if_neg hup, if_neg hup, List.reverse_cons, List.append_assoc]

theorem foldl_push_inward (segments acc : List Name) (a : Address)
    (h : up ∉ segments.foldl (push false) acc) :
    segments.foldl further (a ++ acc.reverse) = a ++ (segments.foldl (push false) acc).reverse := by
  induction segments generalizing acc with
  | nil => rfl
  | cons name segments ih =>
      rw [List.foldl_cons] at h
      -- A step above the directory would be left in the spelling to the end.
      have hpush : up ∉ push false acc name := fun hmem => h (up_mem_foldl_push segments _ hmem)
      rw [List.foldl_cons, List.foldl_cons, push_inward acc name a hpush, ih _ h]

/-- Segments whose normal spelling does not go up lead below where they start. -/
theorem foldl_further_of_notMem_up (segments : List Name) (a : Address)
    (h : up ∉ normalSegments false segments) :
    segments.foldl further a = a ++ normalSegments false segments := by
  have hfold := foldl_push_inward segments [] a fun hmem => h (List.mem_reverse.2 hmem)
  rwa [List.reverse_nil, List.append_nil] at hfold

/-- A name without slashes stays in its directory. -/
theorem inward_of_no_slash (name : Path) (h : '/' ∉ name) :
    Inward name ∧ normalSegments false (segments (directory name)) = [] := by
  rw [Inward, directory_of_no_slash name h]
  exact ⟨⟨isAbsolute_of_no_slash name h, by decide⟩, rfl⟩

theorem mem_foldl_further (names : List Name) (a : Address) (name : Name)
    (h : name ∈ names.foldl further a) :
    name ∈ a ∨ (name ∈ names ∧ name ≠ [] ∧ name ≠ here ∧ name ≠ up) := by
  induction names generalizing a with
  | nil => exact Or.inl h
  | cons first names ih =>
      rcases ih _ h with hmem | ⟨hmem, hstep⟩
      · unfold further at hmem
        split at hmem
        · exact Or.inl hmem
        · rename_i hgo
          split at hmem
          · exact Or.inl (List.dropLast_subset a hmem)
          · rename_i hdown
            -- The only new name of an address is one that leads down.
            rw [List.mem_append, List.mem_singleton] at hmem
            rcases hmem with hmem | rfl
            · exact Or.inl hmem
            · rw [not_or] at hgo
              exact Or.inr ⟨List.mem_cons_self, hgo.1, hgo.2, hdown⟩
      · exact Or.inr ⟨List.mem_cons_of_mem first hmem, hstep⟩

/-- An address consists of names that lead down. -/
theorem isStep_of_mem_address (cwd p : Path) (name : Name) (h : name ∈ address cwd p) :
    IsStep name := by
  rcases mem_foldl_further _ [] name h with hnil | ⟨hmem, hne, hhere, hup⟩
  · cases hnil
  · exact ⟨hne, hhere, hup,
      slash_notMem_of_mem_segments (join cwd p) name (List.mem_filter.1 hmem).1⟩

/-- Names that lead down are appended to an address one by one. -/
theorem foldl_further_of_isStep (names : List Name) (a : Address)
    (h : ∀ name ∈ names, IsStep name) : names.foldl further a = a ++ names := by
  induction names generalizing a with
  | nil => rw [List.append_nil, List.foldl_nil]
  | cons name names ih =>
      rcases h name List.mem_cons_self with ⟨hne, hhere, hup, -⟩
      rw [List.foldl_cons, ih _ fun n hn => h n (List.mem_cons_of_mem name hn), further,
        if_neg (not_or.2 ⟨hne, hhere⟩), if_neg hup, List.append_assoc, List.singleton_append]

theorem names_ofSegments (names : List Name) (h : ∀ name ∈ names, IsStep name) :
    Path.names (ofSegments names) = names := by
  induction names with
  | nil => rfl
  | cons name names ih =>
      rcases h name List.mem_cons_self with ⟨hne, -, -, hslash⟩
      have hfirst : Path.names name = [name] := by
        rw [names_of_no_slash name hslash, if_neg hne]
      -- The last name has no slash behind it.
      cases names with
      | nil => exact hfirst
      | cons next names =>
          rw [ofSegments, names_append_slash, hfirst,
            ih fun n hn => h n (List.mem_cons_of_mem name hn), List.singleton_append]
          exact List.cons_ne_nil next names

theorem isAbsolute_join (cwd p : Path) (h : isAbsolute cwd = true) :
    isAbsolute (join cwd p) = true := by
  have hne : cwd ≠ [] := by
    rintro rfl
    exact absurd h (by decide)
  unfold join
  split
  · assumption
  split
  · rw [isAbsolute_append cwd p hne, h]
  · rw [isAbsolute_append cwd _ hne, h]

/-- The slashes that an absolute path keeps at its beginning. -/
theorem rootSlashes_cases (p : Path) (h : isAbsolute p = true) :
    rootSlashes p = ['/'] ∨ rootSlashes p = ['/', '/'] := by
  -- An absolute path starts with one slash at least.
  have hpos : (p.takeWhile (· == '/')).length ≠ 0 := by
    cases p with
    | nil => exact absurd h (by decide)
    | cons c p =>
        have hc : (c == '/') = true := h
        rw [List.takeWhile_cons, if_pos hc, List.length_cons]
        exact Nat.succ_ne_zero _
  unfold rootSlashes
  split
  · rename_i hzero
    exact absurd hzero hpos
  · exact Or.inr rfl
  · exact Or.inl rfl

theorem orHere_of_ne_nil (p : Path) (h : p ≠ []) : orHere p = p :=
  if_neg h

/-- The normal spelling of a path, seen from the root: its slashes and its address. -/
theorem absolute_eq (cwd p : Path) (hcwd : isAbsolute cwd = true) :
    absolute cwd p = rootSlashes (join cwd p) ++ ofSegments (address cwd p) := by
  have habsolute := isAbsolute_join cwd p hcwd
  rw [absolute, normalize, habsolute, normalSegments_rooted, ← follow_names, ← address]
  -- There is a slash at the beginning, so the spelling is not empty.
  refine orHere_of_ne_nil _ ?_
  rcases rootSlashes_cases _ habsolute with h | h
  · rw [h]
    exact List.cons_ne_nil _ _
  · rw [h]
    exact List.cons_ne_nil _ _

/-- Absolute paths that lead to one address differ in their first slashes, or have
    one normal spelling. -/
theorem absolute_eq_of_address (cwd p q : Path) (hcwd : isAbsolute cwd = true)
    (haddress : address cwd p = address cwd q)
    (hslashes : rootSlashes (join cwd p) = rootSlashes (join cwd q)) :
    absolute cwd p = absolute cwd q := by
  rw [absolute_eq cwd p hcwd, absolute_eq cwd q hcwd, haddress, hslashes]

theorem slashes_of_rootSlashes (p : Path) : ∀ c ∈ rootSlashes p, c = '/' := by
  intro c hc
  unfold rootSlashes at hc
  split at hc
  · cases hc
  · simpa only [List.mem_cons, List.not_mem_nil, or_false, or_self] using hc
  · exact List.mem_singleton.1 hc

theorem names_absolute (cwd p : Path) (hcwd : isAbsolute cwd = true) :
    names (absolute cwd p) = address cwd p := by
  rw [absolute_eq cwd p hcwd, names_append_of_slashes _ _ (slashes_of_rootSlashes _),
    names_ofSegments _ (isStep_of_mem_address cwd p)]

theorem isAbsolute_absolute (cwd p : Path) (hcwd : isAbsolute cwd = true) :
    isAbsolute (absolute cwd p) = true := by
  rw [absolute_eq cwd p hcwd]
  rcases rootSlashes_cases _ (isAbsolute_join cwd p hcwd) with h | h
  · rw [h]
    rfl
  · rw [h]
    rfl

/-- The normal spelling of a path leads to the same address as the path. -/
theorem address_absolute (cwd p : Path) (hcwd : isAbsolute cwd = true) :
    address cwd (absolute cwd p) = address cwd p := by
  rw [address, names_join, isAbsolute_absolute cwd p hcwd, if_pos rfl, names_absolute cwd p hcwd,
    follow, foldl_further_of_isStep _ _ (isStep_of_mem_address cwd p), List.nil_append]

/-- A path leads from where its directory leads, and its last name one step further. -/
theorem address_eq_directory (cwd p : Path) :
    address cwd p = further (address cwd (directory p)) (lastName p) := by
  rw [address, names_join_directory, follow_append, ← address,
    names_of_no_slash _ (slash_notMem_lastName p)]
  by_cases hnil : lastName p = []
  · rw [if_pos hnil, hnil]
    rfl
  · rw [if_neg hnil]
    rfl

/-- The address of a path in a directory is found from the address of the directory,
    unless the path starts at the root. -/
theorem address_join (cwd base p : Path) (h : isAbsolute p = false) :
    address cwd (join base p) = (segments p).foldl further (address cwd base) := by
  -- Whether the base starts at the root or not, the names of the path come last.
  have hnames : names (join cwd (join base p)) = names (join cwd base) ++ names p := by
    rw [names_join, names_join, names_join, isAbsolute_join_of_relative base p h, h]
    split
    · rw [if_neg Bool.false_ne_true]
    · rw [if_neg Bool.false_ne_true, List.append_assoc]
  rw [address, hnames, follow_append, ← address, names, foldl_further_filter]

end Path

end ClientPlan
