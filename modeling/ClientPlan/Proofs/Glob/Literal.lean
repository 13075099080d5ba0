import Mathlib.Data.List.Flatten
import ClientPlan.Proofs.Glob.Persistence
import ClientPlan.Proofs.Path.Tidy

/-!
# Patterns That Stand for Themselves

When a path is found that is given as a pattern.

A path to something that exists is taken for a pattern as soon as it holds a wildcard, and
then its names have to match themselves. Stars and question marks do, and so does a bracket
that is not closed. Only a closed pair of brackets stands for something else, for one
character, so a name that holds one may not match itself.

If all names match themselves, the path is found. The search goes the way that the path
leads, name by name, and keeps its names. It may drop repeated slashes, as a directory is
searched under its own spelling, and so the path that is found is no longer than the one
that was given.

## Theorems

* `fits_self`: A name without brackets matches itself.
* `exists_expand_ok_of_notMem`: An expansion fails over NUL characters only.
* `Search.finds_lastName`: A name that matches itself is found in its directory.
* `Search.exists_stands`: A pattern whose names match themselves stands for its path.
-/

namespace ClientPlan

namespace Glob

theorem someEnd_of_whole (test : List Char → Bool) (text : List Char) (h : test text = true) :
    someEnd test text = true := by
  cases text with
  | nil => exact h
  | cons c text => rw [someEnd, h, Bool.true_or]

/-- The pieces of a text without brackets hold its characters one by one. -/
theorem consistsOf_self (fuel : Nat) (text : List Char) (hfuel : text.length ≤ fuel)
    (h : '[' ∉ text) : consistsOf (piecesWithin fuel text) text = true := by
  -- By induction on the fuel, which is at least the length of what is left.
  induction fuel generalizing text with
  | zero =>
      rw [Nat.le_zero, List.length_eq_zero_iff] at hfuel
      rw [hfuel]
      rfl
  | succ fuel ih =>
      cases text with
      | nil => rfl
      | cons c text =>
          rw [List.mem_cons, not_or] at h
          have hrest := ih text (Nat.le_of_succ_le_succ hfuel) h.2
          rw [piecesWithin]
          by_cases hstar : c = '*'
          · -- A star holds itself, and then nothing more.
            rw [if_pos hstar, consistsOf, someEnd, someEnd_of_whole _ text hrest, Bool.or_true]
          by_cases hmark : c = '?'
          · rw [if_neg hstar, if_pos hmark, consistsOf, hrest, Bool.and_true]
            · rfl
            · exact Piece.noConfusion
          · rw [if_neg hstar, if_neg hmark, if_neg (Ne.symm h.1), consistsOf, hrest, Bool.and_true]
            · exact beq_self_eq_true c
            · exact Piece.noConfusion

/-- A name without brackets matches itself. -/
theorem fits_self (name : Name) (h : '[' ∉ name) : fits name name = true := by
  rw [fits_eq_consistsOf, pieces]
  exact consistsOf_self _ name (Nat.le_refl _) h

end Glob

theorem Path.sublist_join (base p : Path) (h : isAbsolute p = false) :
    List.Sublist base (join base p) := by
  rw [join, h, if_neg Bool.false_ne_true]
  split
  · exact List.sublist_append_left base p
  · exact List.sublist_append_left base _

namespace FileSystem

theorem isTooLong_of_sublist {p q : Path} (h : List.Sublist p q) (hq : isTooLong q = false) :
    isTooLong p = false := by
  unfold isTooLong Utf8.encode at hq ⊢
  rw [decide_eq_false_iff_not] at hq ⊢
  have hlength := (h.flatMap String.utf8EncodeChar).length_le
  omega

/-- A directory can be asked for its entries, also if it is the working directory that is not
    named. -/
theorem directory?_orHere_of_walk (fs : FileSystem) (cwd dir : Path) (base : Address)
    (hshort : isTooLong dir = false)
    (hwalk : fs.walk [] (Path.segments (Path.join cwd dir)) = .ok base)
    (hbase : fs.at? base = some .directory) :
    fs.directory? cwd (Path.orHere dir) = some base := by
  rw [directory?_eq_some_iff, resolve_eq_ok_iff, walk_orHere_iff _ _ _ _ hbase]
  refine ⟨⟨?_, ?_, hwalk⟩, hbase⟩
  · unfold Path.orHere
    split
    · decide
    · assumption
  · unfold Path.orHere
    split
    · decide
    · exact hshort

theorem directory?_of_isFile (fs : FileSystem) (cwd p : Path) (h : fs.isFile cwd p = true) :
    fs.directory? cwd p = none := by
  rcases (isFile_iff _ _ _).1 h with ⟨a, content, hresolve, hentry⟩
  rcases hdir : fs.directory? cwd p with _ | b
  · rfl
  · rw [directory?_eq_some_iff, hresolve, Except.ok.injEq] at hdir
    rw [← hdir.1, hentry] at hdir
    cases hdir.2

end FileSystem

namespace Glob

/-- An expansion fails over NUL characters only. -/
theorem exists_expand_ok_of_notMem (s : Search) (hfs : s.fs.WellFormed) (onlyDirectories : Bool)
    (pattern : Path) (h : '\x00' ∉ pattern) :
    ∃ found, s.expand onlyDirectories pattern = .ok found := by
  -- The directory of a pattern is a shorter one, and it is asked for directories only.
  induction pattern using (measure List.length).wf.induction generalizing onlyDirectories with
  | _ pattern ih =>
      have hdirectory : '\x00' ∉ Path.directory pattern := fun hmem =>
        h ((Path.directory_prefix pattern).mem hmem)
      by_cases hwild : isPattern pattern = true
      · by_cases hdir : isPattern (Path.directory pattern) = true
        · rw [expand_of_isPattern s onlyDirectories pattern hwild hdir]
          rcases ih _ (length_directory_lt_of_isPattern pattern hdir) true hdirectory with
            ⟨dirs, hdirs⟩
          rw [hdirs]
          refine exists_matchingAll_ok s _ onlyDirectories _ fun _ d hd => ?_
          rw [List.mem_eraseDups, mem_expand_iff s hfs true _ dirs hdirs] at hd
          exact hd.nul_notMem hfs
        · rw [Bool.not_eq_true] at hdir
          rw [expand_of_plain_directory s onlyDirectories pattern hwild hdir]
          refine exists_matchingAll_ok s _ onlyDirectories _ fun _ d hd => ?_
          rw [List.mem_singleton.1 hd]
          exact hdirectory
      · rw [Bool.not_eq_true] at hwild
        rw [Search.expand]
        simp only [hwild, Bool.not_false, if_true]
        split
        · exact ⟨_, rfl⟩
        · exact ⟨_, rfl⟩

/-- What is spelled no longer than the directory of a path is joined to its last name no
    longer than the path. -/
theorem join_lastName_sublist (p dir : Path) (h : List.Sublist dir (Path.directory p)) :
    List.Sublist (Path.join dir (Path.lastName p)) p := by
  rw [Path.join, Path.isAbsolute_of_no_slash _ (Path.slash_notMem_lastName p),
    if_neg Bool.false_ne_true]
  rcases Path.directory_cases p with ⟨-, slashes, -, hp⟩ | ⟨hp, hall⟩
  · nth_rewrite 3 [hp]
    split
    · exact h.append ((List.sublist_append_right slashes _).cons _)
    · exact h.append ((List.sublist_append_right slashes _).cons_cons _)
  · nth_rewrite 3 [hp]
    -- What is spelled no longer consists of slashes too, so none is put behind it.
    rw [if_pos]
    · exact h.append (List.Sublist.refl _)
    · rcases List.eq_nil_or_concat dir with hnil | ⟨front, c, rfl⟩
      · exact Or.inl hnil
      · refine Or.inr ?_
        rw [List.concat_eq_append, List.getLast?_concat,
          hall c (h.subset (by simp only [List.concat_eq_append, List.mem_concat_self]))]

/-- A name with a wildcard leads down. -/
theorem isStep_of_isPattern (part : Name) (h : isPattern part = true) (hslash : '/' ∉ part) :
    Path.IsStep part := by
  refine ⟨?_, ?_, ?_, hslash⟩
  · rintro rfl
    exact absurd h (by decide)
  · rintro rfl
    exact absurd h (by decide)
  · rintro rfl
    exact absurd h (by decide)

section Literal

variable {s : Search} {onlyDirectories : Bool}

/-- A name that matches itself is found in its directory. -/
theorem Search.finds_lastName {dir : Path} {part : Name} {base a : Address}
    {entry : Entry} (hdir : s.fs.walk [] (Path.segments (Path.join s.cwd dir)) = .ok base)
    (hstep : s.fs.walk base [part] = .ok a) (hentry : s.fs.at? a = some entry)
    (hasked : wanted onlyDirectories entry = true) (hslash : '/' ∉ part) (hne : part ≠ [])
    (hself : fits part part = true)
    (hshort : FileSystem.isTooLong (Path.join dir part) = false) :
    s.Finds onlyDirectories dir part part := by
  have hrelative := Path.isAbsolute_of_no_slash part hslash
  have hbase := (FileSystem.walk_cons_eq_ok s.fs part [] base a hstep).1
  by_cases hwild : isPattern part = true
  · -- A name with a wildcard is looked for among the entries of the directory.
    have hdown : a = base ++ [part] :=
      (FileSystem.walk_eq_ok s.fs [part] base a hstep).1.trans
        (Path.foldl_further_of_isStep [part] base
          (List.forall_mem_singleton.2 (isStep_of_isPattern part hwild hslash)))
    rw [hdown] at hentry
    have hleads := FileSystem.directory?_orHere_of_walk s.fs s.cwd dir base
      (FileSystem.isTooLong_of_sublist (Path.sublist_join dir part hrelative) hshort) hdir hbase
    by_cases hdeep : s.recursive = true ∧ part = anyDepth
    · have hvisible : [part].any isHidden = false := by
        rw [hdeep.2]
        decide
      exact .below hwild hdeep hleads (List.cons_ne_nil part []) hentry
        (FileSystem.isTooLong_of_sublist (Path.directory_prefix _).sublist hshort) hasked hvisible
    · exact .child hwild hdeep hleads hentry hasked (Bool.or_not_self _) hself
  · -- Without one it is joined to the directory, and what it leads to exists.
    rw [Bool.not_eq_true] at hwild
    refine .entry hwild hne ((FileSystem.contains_iff _ _ _).2 ⟨?_, hshort, a, ?_⟩)
    · intro hnil
      have hlast := Path.lastName_join dir part
      rw [hnil, Path.lastName_of_no_slash part hslash] at hlast
      exact hne hlast.symm
    · rw [FileSystem.walk_join_iff _ _ _ _ _ hrelative, Path.segments_of_no_slash part hslash]
      exact ⟨base, hdir, hbase, hstep⟩

/-- A pattern whose names match themselves stands for its own path, but perhaps for some
    repeated slashes. -/
theorem Search.exists_stands (hfs : s.fs.WellFormed) (onlyDirectories : Bool) (pattern : Path)
    (a : Address) (entry : Entry) (hself : ∀ name ∈ Path.names pattern, fits name name = true)
    (hlast : Path.lastName pattern ≠ []) (hshort : FileSystem.isTooLong pattern = false)
    (hwalk : s.fs.walk [] (Path.segments (Path.join s.cwd pattern)) = .ok a)
    (hentry : s.fs.at? a = some entry) (hasked : wanted onlyDirectories entry = true) :
    ∃ p, s.Stands onlyDirectories pattern p ∧
      s.fs.walk [] (Path.segments (Path.join s.cwd p)) = .ok a ∧ List.Sublist p pattern ∧
      Path.names p = Path.names pattern := by
  -- The way to the path is followed from its end, as the expansion does.
  induction pattern using (measure List.length).wf.induction
    generalizing onlyDirectories a entry with
  | _ pattern ih =>
      have hne : pattern ≠ [] := by
        rintro rfl
        exact hlast rfl
      by_cases hwild : isPattern pattern = true
      · have hslash := Path.slash_notMem_lastName pattern
        have hrelative := Path.isAbsolute_of_no_slash _ hslash
        have hnames := Path.names_directory_append_lastName pattern
        have hpart : fits (Path.lastName pattern) (Path.lastName pattern) = true := by
          refine hself _ ?_
          rw [hnames, Path.names_of_no_slash _ hslash, if_neg hlast]
          exact List.mem_append_right _ List.mem_cons_self
        rcases FileSystem.walk_directory s.fs s.cwd pattern a hwalk with
          ⟨base, hbase, hdirectory, hstep⟩
        -- One step from a directory that is spelled like that of the pattern.
        have hjoin (dir : Path) (hdir : s.fs.walk [] (Path.segments (Path.join s.cwd dir)) = .ok base)
            (hsub : List.Sublist dir (Path.directory pattern))
            (hdirNames : Path.names dir = Path.names (Path.directory pattern)) :
            s.Finds onlyDirectories dir (Path.lastName pattern) (Path.lastName pattern) ∧
              s.fs.walk [] (Path.segments (Path.join s.cwd
                (Path.join dir (Path.lastName pattern)))) = .ok a ∧
              List.Sublist (Path.join dir (Path.lastName pattern)) pattern ∧
              Path.names (Path.join dir (Path.lastName pattern)) = Path.names pattern := by
          have hlonger := join_lastName_sublist pattern dir hsub
          refine ⟨finds_lastName hdir hstep hentry hasked hslash hlast hpart
            (FileSystem.isTooLong_of_sublist hlonger hshort), ?_, hlonger, ?_⟩
          · rw [FileSystem.walk_join_iff _ _ _ _ _ hrelative, Path.segments_of_no_slash _ hslash]
            exact ⟨base, hdir, hdirectory, hstep⟩
          · rw [Path.names_join, hrelative, if_neg Bool.false_ne_true, hdirNames, hnames]
        have hshorter : List.Sublist (Path.directory pattern) pattern :=
          (Path.directory_prefix pattern).sublist
        by_cases hdir : isPattern (Path.directory pattern) = true
        · rcases ih _ (length_directory_lt_of_isPattern pattern hdir) true base .directory
            (fun name hname => hself name (by rw [hnames]; exact List.mem_append_left _ hname))
            (lastName_directory_ne_nil pattern hdir)
            (FileSystem.isTooLong_of_sublist hshorter hshort) hbase hdirectory rfl with
            ⟨dir, hstands, hdirWalk, hsub, hdirNames⟩
          rcases hjoin dir hdirWalk hsub hdirNames with ⟨hfinds, hrest⟩
          exact ⟨_, .beneath hwild hdir hstands hfinds, hrest⟩
        · rw [Bool.not_eq_true] at hdir
          rcases hjoin _ hbase (List.Sublist.refl _) rfl with ⟨hfinds, hrest⟩
          exact ⟨_, .within hwild hdir
            (FileSystem.nul_notMem_of_leads s.fs hfs s.cwd _ ⟨base, hbase⟩) hfinds, hrest⟩
      · rw [Bool.not_eq_true] at hwild
        refine ⟨pattern, .itself hwild ?_, hwalk, List.Sublist.refl _, rfl⟩
        rw [if_neg hlast]
        exact (FileSystem.contains_iff _ _ _).2 ⟨hne, hshort, a, hwalk⟩

end Literal

end Glob

end ClientPlan
