import Mathlib.Data.List.Infix
import ClientPlan.FileSystem.Change
import ClientPlan.Proofs.Path.Names

/-!
# Ways in a File System

Where a path leads, said by its spelling.

Without links, what stands in a file system decides only whether a path leads
anywhere, not where. The address of a path can be read off its names
(`Path.address`), and so can the addresses that are passed on the way there
(`Path.above`). A walk that succeeds ends at the one and has found a directory
at each of the others. Every operation that acts on the last name of a path
starts with such a walk, so `target_eq_ok` says all that those operations know
about the file system before they look at that name.

## Main definitions

* `Path.further`, `Path.follow`: The address some names further on.
* `Path.address`: The address that a path denotes.
* `Path.way`, `Path.above`: The addresses on the way of a path, with and without
  its own.

## Theorems

* `follow_names`: Segments that are not names make no difference.
* `mem_above_of_mem_way_directory`: The way of a directory is part of the way of
  what stands in it.
* `exists_follow_of_prefix`: What is above an address is passed on the way there.
* `walk_eq_ok`: A walk ends at its address and passes directories.
* `resolve_eq_ok`: A path that leads anywhere leads to its address.
* `target_cases`, `target_eq_ok`: An operation acts at the address of its path.
-/

namespace ClientPlan

namespace Path

/-- The address one segment further on, whatever stands there. -/
def further (a : Address) (name : Name) : Address :=
  if name = [] ∨ name = here then a
  else if name = up then a.dropLast
  else a ++ [name]

/-- The address at the end of some segments that start at the root. -/
def follow (segments : List Name) : Address :=
  segments.foldl further []

/-- The address that a path denotes, when the working directory is the given
    one. -/
def address (cwd p : Path) : Address :=
  follow (names (join cwd p))

/-- The addresses on the way of a path, from the root to its own. -/
def way (cwd p : Path) : List Address :=
  (names (join cwd p)).inits.map follow

/-- The addresses on the way of a path before its last name. -/
def above (cwd p : Path) : List Address :=
  (names (join cwd p)).dropLast.inits.map follow

theorem mem_way_iff (cwd p : Path) (b : Address) :
    b ∈ way cwd p ↔ ∃ start, start <+: names (join cwd p) ∧ follow start = b := by
  simp only [way, List.mem_map, List.mem_inits]

theorem mem_above_iff (cwd p : Path) (b : Address) :
    b ∈ above cwd p ↔ ∃ start, start <+: (names (join cwd p)).dropLast ∧ follow start = b := by
  simp only [above, List.mem_map, List.mem_inits]

theorem address_mem_way (cwd p : Path) : address cwd p ∈ way cwd p :=
  (mem_way_iff cwd p _).2 ⟨_, List.prefix_rfl, rfl⟩

theorem foldl_further_filter (segments : List Name) (a : Address) :
    (segments.filter fun name => name ≠ []).foldl further a = segments.foldl further a := by
  rw [List.foldl_filter]
  congr 1
  funext b name
  by_cases hname : name = []
  · simp only [hname, ne_eq, not_true_eq_false, decide_false, Bool.false_eq_true, if_false,
      further, true_or, if_true]
  · simp only [hname, ne_eq, not_false_eq_true, decide_true, if_true]

theorem follow_filter (segments : List Name) :
    follow (segments.filter fun name => name ≠ []) = follow segments :=
  foldl_further_filter segments []

theorem follow_names (p : Path) : follow (names p) = follow (segments p) :=
  follow_filter (segments p)

theorem follow_append (start rest : List Name) :
    follow (start ++ rest) = rest.foldl further (follow start) := by
  rw [follow, List.foldl_append, follow]

/-- A shorter list of names has a shorter way. -/
theorem way_subset_of_prefix (cwd p q : Path)
    (h : names (join cwd p) <+: names (join cwd q)) (b : Address) (hb : b ∈ way cwd p) :
    b ∈ way cwd q := by
  rcases (mem_way_iff cwd p b).1 hb with ⟨start, hstart, hfollow⟩
  exact (mem_way_iff cwd q b).2 ⟨start, hstart.trans h, hfollow⟩

theorem way_directory_subset (cwd p : Path) (b : Address) (hb : b ∈ way cwd (directory p)) :
    b ∈ way cwd p := by
  refine way_subset_of_prefix cwd _ _ ?_ b hb
  rw [names_join_directory cwd p]
  exact List.prefix_append _ _

/-- In place of an empty path the name of the directory inside itself is written. -/
theorem names_join_orHere (cwd p : Path) :
    names (join cwd (orHere p)) = names (join cwd p) ∨
      names (join cwd (orHere p)) = names (join cwd p) ++ [here] := by
  by_cases hp : p = []
  · have hhere : isAbsolute here = false := rfl
    have hnil : isAbsolute [] = false := rfl
    have hnames : names here = [here] := rfl
    refine Or.inr ?_
    simp only [orHere, hp, if_true, names_join, hhere, hnil, Bool.false_eq_true, if_false,
      names_nil, List.append_nil, hnames]
  · rw [orHere, if_neg hp]
    exact Or.inl rfl

/-- A path without names stands for the working directory, and so does the one
    that is written in its place. -/
theorem mem_way_of_mem_way_orHere (cwd p : Path) (b : Address) (hb : b ∈ way cwd (orHere p)) :
    b ∈ way cwd p := by
  rcases names_join_orHere cwd p with hsame | hjoin
  · rwa [way, hsame] at hb
  · rcases (mem_way_iff cwd _ b).1 hb with ⟨start, hstart, hfollow⟩
    rw [hjoin, List.prefix_concat_iff] at hstart
    rcases hstart with rfl | hstart
    · -- The name of a directory inside itself leads no further.
      rw [follow_append] at hfollow
      exact (mem_way_iff cwd p b).2 ⟨_, List.prefix_rfl, hfollow⟩
    · exact (mem_way_iff cwd p b).2 ⟨start, hstart, hfollow⟩

/-- What stands in a directory is reached through it. -/
theorem mem_above_of_mem_way_directory (cwd p : Path) (b : Address) (hname : lastName p ≠ [])
    (hb : b ∈ way cwd (directory p)) : b ∈ above cwd p := by
  rcases (mem_way_iff cwd _ b).1 hb with ⟨start, hstart, hfollow⟩
  refine (mem_above_iff cwd p b).2 ⟨start, ?_, hfollow⟩
  rw [names_join_directory, names_of_no_slash _ (slash_notMem_lastName p), if_neg hname,
    List.dropLast_concat]
  exact hstart

/-- Segments that do not go up lead to or below where they start. -/
theorem prefix_foldl_further (names : List Name) (a : Address) (h : up ∉ names) :
    a <+: names.foldl further a := by
  induction names generalizing a with
  | nil => exact List.prefix_rfl
  | cons name names ih =>
      rw [List.mem_cons, not_or] at h
      refine List.IsPrefix.trans ?_ (ih (further a name) h.2)
      unfold further
      split
      · exact List.prefix_rfl
      · rw [if_neg (Ne.symm h.1)]
        exact List.prefix_append a [name]

/-- What is above an address that some names lead to is passed on the way there. -/
theorem exists_follow_of_prefix (names : List Name) (b : Address) (h : b <+: follow names) :
    ∃ start, start <+: names ∧ follow start = b := by
  induction names using List.reverseRecOn with
  | nil => exact ⟨[], List.prefix_rfl, (List.prefix_nil.1 h).symm⟩
  | append_singleton names name ih =>
      -- Only a name that leads down adds something that is not above what was there.
      have hbefore : b <+: follow names →
          ∃ start, start <+: names ++ [name] ∧ follow start = b := by
        intro hprefix
        rcases ih hprefix with ⟨start, hstart, hfollow⟩
        exact ⟨start, hstart.trans (List.prefix_append _ _), hfollow⟩
      have hfollow : follow (names ++ [name]) = further (follow names) name := follow_append names _
      by_cases hstay : name = [] ∨ name = here
      · rw [hfollow, further, if_pos hstay] at h
        exact hbefore h
      by_cases hup : name = up
      · rw [hfollow, further, if_neg hstay, if_pos hup] at h
        exact hbefore (h.trans (List.dropLast_prefix _))
      · rw [hfollow, further, if_neg hstay, if_neg hup] at h
        rcases List.prefix_concat_iff.1 h with rfl | hprefix
        · refine ⟨names ++ [name], List.prefix_rfl, ?_⟩
          rw [hfollow, further, if_neg hstay, if_neg hup]
        · exact hbefore hprefix

/-- What is above what stands in a directory is on the way of the directory. -/
theorem mem_way_directory_of_mem_above (cwd p : Path) (b : Address) (hname : lastName p ≠ [])
    (hb : b ∈ above cwd p) : b ∈ way cwd (directory p) := by
  rcases (mem_above_iff cwd p b).1 hb with ⟨start, hstart, hfollow⟩
  rw [names_join_directory, names_of_no_slash _ (slash_notMem_lastName p), if_neg hname,
    List.dropLast_concat] at hstart
  exact (mem_way_iff cwd _ b).2 ⟨start, hstart, hfollow⟩

theorem mem_way_orHere_of_mem_way (cwd p : Path) (b : Address) (hb : b ∈ way cwd p) :
    b ∈ way cwd (orHere p) := by
  refine way_subset_of_prefix cwd p _ ?_ b hb
  rcases names_join_orHere cwd p with hsame | hhere
  · rw [hsame]
  · rw [hhere]
    exact List.prefix_append _ _

theorem mem_above_or_eq (cwd p : Path) (b : Address) (h : b ∈ way cwd p) :
    b ∈ above cwd p ∨ b = address cwd p := by
  rcases (mem_way_iff cwd p b).1 h with ⟨start, hstart, rfl⟩
  rcases List.eq_nil_or_concat' (names (join cwd p)) with hnil | ⟨front, name, hnames⟩
  · rw [hnil, List.prefix_nil] at hstart
    rw [hstart, address, hnil]
    exact Or.inr rfl
  · rw [hnames, List.prefix_concat_iff] at hstart
    rcases hstart with rfl | hstart
    · rw [address, hnames]
      exact Or.inr rfl
    · refine Or.inl ((mem_above_iff cwd p _).2 ⟨start, ?_, rfl⟩)
      rwa [hnames, List.dropLast_concat]

end Path

namespace FileSystem

theorem walk_cons_eq_ok (fs : FileSystem) (name : Name) (names : List Name) (a b : Address)
    (h : fs.walk a (name :: names) = .ok b) :
    fs.at? a = some .directory ∧ fs.walk (Path.further a name) names = .ok b := by
  unfold walk at h
  rcases ha : fs.at? a with _ | _ | content
  · rw [ha] at h
    cases h
  · simp only [ha] at h
    refine ⟨rfl, ?_⟩
    -- The walk and the spelling go through the same three cases of a name.
    unfold Path.further
    split at h
    · rename_i hstay
      rwa [if_pos hstay]
    · rename_i hgo
      rw [if_neg hgo]
      split at h
      · rename_i hup
        rwa [if_pos hup]
      · rename_i hdown
        rw [if_neg hdown]
        split at h
        · cases h
        · split at h
          · cases h
          · exact h
  · rw [ha] at h
    cases h

/-- A walk that succeeds ends where its segments lead, and each segment has found
    a directory to start from. -/
theorem walk_eq_ok (fs : FileSystem) (names : List Name) (a b : Address)
    (h : fs.walk a names = .ok b) :
    b = names.foldl Path.further a ∧
      ∀ start rest, names = start ++ rest → rest ≠ [] →
        fs.at? (start.foldl Path.further a) = some .directory := by
  induction names generalizing a with
  | nil =>
      cases h
      refine ⟨rfl, ?_⟩
      intro start rest hsplit hrest
      exact absurd (List.append_eq_nil_iff.1 hsplit.symm).2 hrest
  | cons name names ih =>
      rcases walk_cons_eq_ok fs name names a b h with ⟨hdirectory, hwalk⟩
      rcases ih _ hwalk with ⟨hend, hpassed⟩
      refine ⟨hend, ?_⟩
      intro start rest hsplit hrest
      -- The segments passed are none, or begin with the first one of the walk.
      cases start with
      | nil => exact hdirectory
      | cons first start =>
          rw [List.cons_append, List.cons.injEq] at hsplit
          rw [← hsplit.1]
          exact hpassed start rest hsplit.2 hrest

/-- A path that leads anywhere leads to its address. -/
theorem resolve_eq_ok (fs : FileSystem) (cwd p : Path) (a : Address)
    (h : fs.resolve cwd p = .ok a) : a = Path.address cwd p := by
  unfold resolve at h
  split at h
  · cases h
  split at h
  · cases h
  · rw [Path.address, Path.follow_names]
    exact (walk_eq_ok fs _ [] a h).1

/-- The last name that is cut off is the last one of all names. -/
theorem names_of_lastFirst (segments : List Name) (name : Name) (reversed : List Name)
    (slash : Bool) (h : lastFirst segments = (name :: reversed, slash)) :
    name ≠ [] ∧ (segments.filter fun n => n ≠ []) =
      (reversed.reverse.filter fun n => n ≠ []) ++ [name] := by
  simp only [lastFirst, Prod.mk.injEq] at h
  -- The search from behind ends at a segment that is not empty.
  have hname : name ≠ [] := by
    have hhead := List.head?_dropWhile_not (fun n : Name => decide (n = [])) segments.reverse
    rw [h.1] at hhead
    simpa only [List.head?_cons, decide_eq_false_iff_not] using hhead
  refine ⟨hname, ?_⟩
  have hcut := List.takeWhile_append_dropWhile (p := fun n : Name => decide (n = []))
    (l := segments.reverse)
  rw [h.1] at hcut
  -- What follows the last name is empty, so the filter drops it.
  have hempty : ∀ n ∈ (segments.reverse.takeWhile fun n => decide (n = [])).reverse,
      ¬ decide (n ≠ []) = true := by
    intro n hn
    have htake := List.mem_takeWhile_imp (List.mem_reverse.1 hn)
    simpa only [ne_eq, decide_not, Bool.not_eq_true', decide_eq_false_iff_not, not_not,
      decide_eq_true_eq] using htake
  have hsegments : segments = reversed.reverse ++ name ::
      (segments.reverse.takeWhile fun n => decide (n = [])).reverse := by
    have hreverse := congrArg List.reverse hcut
    rw [List.reverse_reverse, List.reverse_append, List.reverse_cons, List.append_assoc,
      List.singleton_append] at hreverse
    exact hreverse.symm
  rw [hsegments, List.filter_append, List.filter_cons_of_pos (by simpa only [ne_eq, decide_not,
    Bool.not_eq_true', decide_eq_false_iff_not] using hname), List.filter_eq_nil_iff.2 hempty]

/-- What has to hold for an operation to act on the last name of its path. -/
theorem target_cases (fs : FileSystem) (cwd p : Path) (parent : Address) (name : Name)
    (slash : Bool) (h : fs.target cwd p = .ok ⟨parent, some name, slash⟩) :
    p ≠ [] ∧ isTooLong p = false ∧ ∃ reversed,
      lastFirst (Path.segments (Path.join cwd p)) = (name :: reversed, slash) ∧
      fs.walk [] reversed.reverse = .ok parent ∧ fs.at? parent = some .directory ∧
      name ≠ Path.here ∧ name ≠ Path.up := by
  -- One test after another has been passed.
  unfold target at h
  split at h
  · cases h
  rename_i hp
  split at h
  · cases h
  rename_i hshort
  rw [Bool.not_eq_true] at hshort
  rcases hlast : lastFirst (Path.segments (Path.join cwd p)) with ⟨_ | ⟨last, reversed⟩, s⟩
  · simp only [hlast, Except.ok.injEq, Target.mk.injEq, reduceCtorEq, false_and, and_false] at h
  simp only [hlast] at h
  rcases hwalk : fs.walk [] reversed.reverse with reason | reached
  · simp only [hwalk, reduceCtorEq] at h
  simp only [hwalk] at h
  rcases hreached : fs.at? reached with _ | _ | content
  · simp only [hreached, reduceCtorEq] at h
  · simp only [hreached] at h
    split at h
    · simp only [Except.ok.injEq, Target.mk.injEq, reduceCtorEq, false_and, and_false] at h
    · rename_i hmoves
      rw [not_or] at hmoves
      simp only [Except.ok.injEq, Target.mk.injEq, Option.some.injEq] at h
      rcases h with ⟨rfl, rfl, rfl⟩
      exact ⟨hp, hshort, reversed, rfl, hwalk, hreached, hmoves.1, hmoves.2⟩
  · simp only [hreached, reduceCtorEq] at h

/-- An operation acts at the address of its path, and only behind directories. -/
theorem target_eq_ok (fs : FileSystem) (cwd p : Path) (parent : Address) (name : Name)
    (slash : Bool) (h : fs.target cwd p = .ok ⟨parent, some name, slash⟩) :
    parent ++ [name] = Path.address cwd p ∧
      ∀ b ∈ Path.above cwd p, fs.at? b = some .directory := by
  rcases target_cases fs cwd p parent name slash h with
    ⟨-, -, reversed, hlast, hwalk, hreached, hhere, hup⟩
  rcases names_of_lastFirst _ name reversed slash hlast with ⟨hname, hnames⟩
  rcases walk_eq_ok fs reversed.reverse [] parent hwalk with ⟨hend, hpassed⟩
  constructor
  · -- The last name leads down, one further than the walk.
    have hfollow : Path.follow (Path.names (Path.join cwd p)) = Path.further parent name := by
      rw [Path.names, hnames, Path.follow_append, Path.follow_filter, Path.follow, ← hend]
      rfl
    rw [Path.address, hfollow, Path.further, if_neg (by simp only [hname, hhere, or_self,
      not_false_eq_true]), if_neg hup]
  · -- An address above is where a part of the walk has ended.
    intro b hb
    rcases (Path.mem_above_iff cwd p b).1 hb with ⟨start, hstart, rfl⟩
    rw [Path.names, hnames, List.dropLast_concat, List.prefix_filter_iff] at hstart
    rcases hstart with ⟨segments, ⟨rest, hrest⟩, rfl⟩
    rw [Path.follow_filter]
    by_cases hnil : rest = []
    · -- The last address on the way is the directory that the walk has reached.
      rw [hnil, List.append_nil] at hrest
      rw [hrest, Path.follow, ← hend]
      exact hreached
    · exact hpassed segments rest hrest.symm hnil

end FileSystem

end ClientPlan
