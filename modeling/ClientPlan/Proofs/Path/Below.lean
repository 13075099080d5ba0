import ClientPlan.Proofs.Path.Address

/-!
# Ways Below a Common Directory

The way from the directory that some paths have in common to one of them.

The common directory is read off the normal spellings of the directories, so its
names begin the address of each of them, and there is no need to go up on the way
down to a file. Only a path whose own last name goes up could leave the common
directory, and that name is not part of the directory that the file is in.

## Main definitions

* `Path.Descends`: A way that leads down and nowhere else.

## Theorems

* `commonStart_append`: What a list has in common with a longer one.
* `commonNames_prefix`: What paths have in common begins each of them.
* `names_commonDirectory`, `address_commonDirectory`: The common directory.
* `relative_below`: The way to what is below a directory.
* `descends_directory_relative`: The directory on the way to one of the files.
* `directory_ofSegments_concat`, `directory_relative`: That directory, spelled out.
* `address_join_ofSegments`: What names lead to below a directory.
-/

namespace ClientPlan

namespace Path

/-- A way that does not start at the root and leads down with every name. -/
def Descends (p : Path) : Prop :=
  isAbsolute p = false ∧ ∀ name ∈ names p, IsStep name

theorem commonStart_prefix_left (as bs : List Name) : commonStart as bs <+: as := by
  induction as generalizing bs with
  | nil => exact List.nil_prefix
  | cons a as ih =>
      cases bs with
      | nil => exact List.nil_prefix
      | cons b bs =>
          rw [commonStart]
          split
          · exact (List.prefix_cons_inj a).2 (ih bs)
          · exact List.nil_prefix

theorem commonStart_prefix_right (as bs : List Name) : commonStart as bs <+: bs := by
  induction as generalizing bs with
  | nil => exact List.nil_prefix
  | cons a as ih =>
      cases bs with
      | nil => exact List.nil_prefix
      | cons b bs =>
          rw [commonStart]
          split
          · rename_i hab
            rw [hab]
            exact (List.prefix_cons_inj b).2 (ih bs)
          · exact List.nil_prefix

/-- A list has all of itself in common with a list that it begins. -/
theorem commonStart_append (as rest : List Name) : commonStart as (as ++ rest) = as := by
  induction as with
  | nil => rfl
  | cons a as ih => rw [List.cons_append, commonStart, if_pos rfl, ih]

theorem commonStart_concat_self (as : List Name) (a : Name) : commonStart (as ++ [a]) as = as := by
  induction as with
  | nil => rfl
  | cons b as ih => rw [List.cons_append, commonStart, if_pos rfl, ih]

/-- What some paths have in common begins each of them. -/
theorem commonNames_prefix (paths : List Path) (p : Path) (h : p ∈ paths) :
    commonNames paths <+: names p := by
  -- By induction on the paths: each further one can only shorten what they have in common.
  induction paths with
  | nil => cases h
  | cons q paths ih =>
      cases paths with
      | nil =>
          rw [List.mem_singleton] at h
          rw [h]
          exact List.prefix_rfl
      | cons next paths =>
          rw [commonNames]
          rcases List.mem_cons.1 h with rfl | h
          · exact commonStart_prefix_left _ _
          · exact (commonStart_prefix_right _ _).trans (ih h)
          · exact List.cons_ne_nil next paths

/-- The common directory of some paths holds the names that they have in common. -/
theorem names_commonDirectory (base : Path) (paths : List Path)
    (h : commonDirectory paths = some base) (hstep : ∀ name ∈ commonNames paths, IsStep name) :
    isAbsolute base = true ∧ names base = commonNames paths := by
  unfold commonDirectory at h
  split at h
  · cases h
  · cases h
    -- The slash in front adds no name.
    have hslash := names_append_slash [] (ofSegments (commonNames paths))
    rw [List.nil_append, names_nil, List.nil_append, names_ofSegments _ hstep] at hslash
    exact ⟨rfl, hslash⟩

/-- The address of the common directory of some paths consists of the names that
    they have in common. -/
theorem address_commonDirectory (cwd base : Path) (paths : List Path)
    (h : commonDirectory paths = some base) (hstep : ∀ name ∈ commonNames paths, IsStep name) :
    address cwd base = commonNames paths := by
  rcases names_commonDirectory base paths h hstep with ⟨habsolute, hnames⟩
  rw [address, names_join, if_pos habsolute, hnames, follow, foldl_further_of_isStep _ _ hstep,
    List.nil_append]

theorem isAbsolute_ofSegments (names : List Name)
    (h : ∀ name ∈ names, name ≠ [] ∧ '/' ∉ name) : isAbsolute (ofSegments names) = false := by
  cases names with
  | nil => rfl
  | cons name names =>
      rcases h name List.mem_cons_self with ⟨hne, hslash⟩
      have hname := isAbsolute_of_no_slash name hslash
      cases names with
      | nil => exact hname
      | cons next names =>
          rw [ofSegments, isAbsolute_append name _ hne]
          · exact hname
          · exact List.cons_ne_nil next names

theorem not_slash_head_ofSegments (names : List Name) (h : ∀ name ∈ names, IsStep name) :
    isAbsolute (ofSegments names) = false :=
  isAbsolute_ofSegments names fun name hname => ⟨(h name hname).1, (h name hname).2.2.2⟩

theorem descends_nil : Descends [] := by
  refine ⟨rfl, ?_⟩
  rw [names_nil]
  exact List.forall_mem_nil _

/-- The directory on a way that leads down is such a way too. -/
theorem descends_directory (p : Path) (h : Descends p) : Descends (directory p) := by
  refine ⟨by rw [isAbsolute_directory]; exact h.1, ?_⟩
  intro name hname
  refine h.2 name ?_
  rw [names_directory_append_lastName p]
  exact List.mem_append_left _ hname

/-- The way to what is below a directory leads down, or nowhere. -/
theorem descends_directory_ofSegments (names : List Name) (h : ∀ name ∈ names, IsStep name) :
    Descends (directory (orHere (ofSegments names))) := by
  -- Nothing is left of the way to the directory itself.
  by_cases hnil : ofSegments names = []
  · rw [hnil]
    exact descends_nil
  · rw [orHere_of_ne_nil _ hnil]
    refine descends_directory _ ⟨not_slash_head_ofSegments names h, ?_⟩
    rwa [names_ofSegments names h]

/-- To what is below a directory the way leads down from there. -/
theorem relative_below (cwd p base : Path) (rest : List Name) (hcwd : isAbsolute cwd = true)
    (h : address cwd p = address cwd base ++ rest) :
    relative cwd (absolute cwd p) base = orHere (ofSegments rest) := by
  have htarget : names (absolute cwd (absolute cwd p)) = address cwd base ++ rest := by
    rw [names_absolute cwd _ hcwd, address_absolute cwd p hcwd, h]
  unfold relative
  simp only [names_absolute cwd base hcwd, htarget]
  -- All of the base is shared, so there is nothing to go up.
  rw [commonStart_append, Nat.sub_self, List.replicate_zero, List.nil_append,
    List.drop_left]

/-- The directory on the way from a directory to a path, when that directory is on
    the way of the path's own directory. -/
theorem descends_directory_relative (cwd p base : Path) (hcwd : isAbsolute cwd = true)
    (hbase : address cwd base <+: address cwd (directory p)) :
    Descends (directory (relative cwd (absolute cwd p) base)) := by
  have hstep := isStep_of_mem_address cwd p
  -- As long as the base begins the address of the path, there is nothing to go up.
  have hdown : ∀ rest, address cwd p = address cwd base ++ rest →
      Descends (directory (relative cwd (absolute cwd p) base)) := by
    intro rest hrest
    rw [relative_below cwd p base rest hcwd hrest]
    rw [hrest] at hstep
    exact descends_directory_ofSegments _ fun name hname =>
      hstep name (List.mem_append_right _ hname)
  rcases hbase with ⟨rest, hrest⟩
  have hlast := address_eq_directory cwd p
  rw [← hrest, further] at hlast
  split at hlast
  · exact hdown rest hlast
  split at hlast
  · rcases List.eq_nil_or_concat rest with rfl | ⟨init, name, rfl⟩
    · -- The last name leads out of the base, and the directory is what is left of it.
      rw [List.append_nil] at hlast
      rcases List.eq_nil_or_concat (address cwd base) with hnil | ⟨init, name, hinit⟩
      · rw [hnil, List.dropLast_nil] at hlast
        exact hdown [] (by rw [hlast, hnil, List.append_nil])
      · rw [List.concat_eq_append] at hinit
        rw [hinit, List.dropLast_concat] at hlast
        have htarget : names (absolute cwd (absolute cwd p)) = address cwd p := by
          rw [names_absolute cwd _ hcwd, address_absolute cwd p hcwd]
        have hup : orHere (ofSegments (List.replicate 1 up ++ [])) = up := rfl
        unfold relative
        simp only [names_absolute cwd base hcwd, htarget]
        rw [hlast, hinit, commonStart_concat_self, List.drop_length, List.length_append,
          List.length_singleton, Nat.add_sub_cancel_left, hup]
        exact descends_nil
    · rw [List.concat_eq_append, ← List.append_assoc, List.dropLast_concat] at hlast
      exact hdown init hlast
  · rw [List.append_assoc] at hlast
    exact hdown _ hlast

theorem ofSegments_concat (names : List Name) (name : Name) (h : names ≠ []) :
    ofSegments (names ++ [name]) = ofSegments names ++ '/' :: name := by
  -- By induction on the names; the slash goes in front of all but the first.
  induction names with
  | nil => exact absurd rfl h
  | cons first names ih =>
      cases names with
      | nil => rfl
      | cons next names =>
          have hnext := ih (List.cons_ne_nil next names)
          rw [List.cons_append] at hnext
          have hlonger : ofSegments (first :: (next :: (names ++ [name]))) =
              first ++ '/' :: ofSegments (next :: (names ++ [name])) := rfl
          have hnames : ofSegments (first :: next :: names) =
              first ++ '/' :: ofSegments (next :: names) := rfl
          rw [List.cons_append, List.cons_append, hlonger, hnext, hnames, List.append_assoc,
            List.cons_append]

/-- A path is cut at its last slash, and keeps what ends in front of it. -/
theorem directory_append_slash (p name : Path) (hname : '/' ∉ name)
    (hp : ∃ c, p.getLast? = some c ∧ c ≠ '/') : directory (p ++ '/' :: name) = p := by
  rcases hp with ⟨c, hlast, hc⟩
  rcases List.getLast?_eq_some_iff.1 hlast with ⟨front, rfl⟩
  have hkeep : ¬ (c == '/') = true := by
    rw [beq_iff_eq]
    exact hc
  have hhead : ((front ++ [c] ++ ['/']).reverse.dropWhile (· != '/')).reverse =
      front ++ [c] ++ ['/'] := by
    rw [List.reverse_concat, List.dropWhile_cons_of_neg (by decide), ← List.reverse_concat,
      List.reverse_reverse]
  have hall : ¬ (front ++ [c] ++ ['/']).all (· == '/') = true := by
    rw [List.all_eq_true]
    intro h
    exact hkeep (h c (List.mem_append_left _ (List.mem_append_right front List.mem_cons_self)))
  -- Only the slash that was put there is dropped from the end.
  have hstop : (c :: front.reverse).dropWhile (· == '/') = c :: front.reverse :=
    List.dropWhile_cons_of_neg hkeep
  rw [List.append_cons, directory_append _ name hname, directory, hhead, if_neg hall,
    List.reverse_concat, List.dropWhile_cons_of_pos (by decide), List.reverse_concat, hstop,
    ← List.reverse_concat, List.reverse_reverse]

/-- What is put together from a directory and a name is cut to the directory, or to a
    beginning of it if that ends in slashes. -/
theorem directory_join_prefix (dir name : Path) (hname : '/' ∉ name) :
    directory (join dir name) <+: dir := by
  rw [join, isAbsolute_of_no_slash name hname, if_neg Bool.false_ne_true]
  by_cases hend : dir = [] ∨ dir.getLast? = some '/'
  · rw [if_pos hend, directory_append dir name hname]
    exact directory_prefix dir
  · rw [if_neg hend]
    rw [not_or] at hend
    have hlast := List.getLast?_eq_some_getLast hend.1
    rw [directory_append_slash dir name hname
      ⟨_, hlast, fun hslash => hend.2 (hlast.trans (congrArg some hslash))⟩]

theorem getLast?_ofSegments (names : List Name) (hne : names ≠ [])
    (h : ∀ name ∈ names, name ≠ [] ∧ '/' ∉ name) :
    ∃ c, (ofSegments names).getLast? = some c ∧ c ≠ '/' := by
  -- The last character is that of the last name.
  rcases List.eq_nil_or_concat' names with rfl | ⟨front, name, rfl⟩
  · exact absurd rfl hne
  rcases h name (List.mem_append_right front List.mem_cons_self) with ⟨hname, hslash⟩
  have hlast := List.getLast?_eq_some_getLast hname
  refine ⟨name.getLast hname, ?_, ?_⟩
  · by_cases hfront : front = []
    · rw [hfront]
      exact hlast
    · rw [ofSegments_concat front name hfront, ← List.singleton_append, List.getLast?_append,
        List.getLast?_append, hlast]
      rfl
  · intro hc
    exact hslash (hc ▸ List.getLast_mem hname)

/-- The directory of a path that is spelled by names is spelled by all but the last. -/
theorem directory_ofSegments_concat (names : List Name) (name : Name)
    (h : ∀ n ∈ names, n ≠ [] ∧ '/' ∉ n) (hname : '/' ∉ name) :
    directory (ofSegments (names ++ [name])) = ofSegments names := by
  by_cases hnames : names = []
  · rw [hnames]
    exact directory_of_no_slash name hname
  · rw [ofSegments_concat names name hnames]
    exact directory_append_slash _ name hname (getLast?_ofSegments names hnames h)

/-- A name that leads down is put behind the address of its directory. -/
theorem address_of_isStep (cwd p : Path) (h : IsStep (lastName p)) :
    address cwd p = address cwd (directory p) ++ [lastName p] := by
  rcases h with ⟨hne, hhere, hup, -⟩
  rw [address_eq_directory, further, if_neg (not_or.2 ⟨hne, hhere⟩), if_neg hup]

/-- The directory on the way to a file is spelled by the names of its own directory that
    lie below the base. -/
theorem directory_relative (cwd p base : Path) (below : List Name) (hcwd : isAbsolute cwd = true)
    (hlast : IsStep (lastName p)) (h : address cwd (directory p) = address cwd base ++ below) :
    directory (relative cwd (absolute cwd p) base) = ofSegments below := by
  have haddress := address_of_isStep cwd p hlast
  have hstep := isStep_of_mem_address cwd p
  rw [haddress, h] at hstep
  rw [h, List.append_assoc] at haddress
  -- The names below the base are those of an address.
  have hbelow : ∀ name ∈ below, name ≠ [] ∧ '/' ∉ name := by
    intro name hname
    have hdown := hstep name (List.mem_append_left _ (List.mem_append_right _ hname))
    exact ⟨hdown.1, hdown.2.2.2⟩
  rw [relative_below cwd p base _ hcwd haddress, orHere_of_ne_nil]
  · exact directory_ofSegments_concat below _ hbelow hlast.2.2.2
  · -- The last name is there in any case.
    intro hnil
    have hnames := names_ofSegments (below ++ [lastName p]) fun name hname => by
      rcases List.mem_append.1 hname with hname | hname
      · exact hstep name (List.mem_append_left _ (List.mem_append_right _ hname))
      · exact hstep name (List.mem_append_right _ hname)
    rw [hnil, names_nil] at hnames
    exact List.append_ne_nil_of_right_ne_nil below (List.cons_ne_nil _ _) hnames.symm

/-- Names that lead down lead from a directory to what has them behind its address. -/
theorem address_join_ofSegments (cwd base : Path) (names : List Name)
    (h : ∀ name ∈ names, IsStep name) :
    address cwd (join base (ofSegments names)) = address cwd base ++ names := by
  rw [address_join cwd base _ (not_slash_head_ofSegments names h), ← foldl_further_filter,
    ← Path.names, names_ofSegments names h, foldl_further_of_isStep _ _ h]

end Path

end ClientPlan
