import ClientPlan.Generation.Run
import ClientPlan.Proofs.FileSystem.Effects

/-!
# Writing Plans

What stands where after the plans have been written.

Each plan is written into a file system that the earlier ones have changed: a
directory may be there because an earlier plan needed it, and a file may be one
that an earlier run or an earlier plan has left. The relation `Written` relates
the first file system to the last one, without those between them. It composes,
because writing a plan never turns a directory into a file or a file into a
directory; one plan satisfies it, and so do all of them.

## Main definitions

* `lastAt?`: The output that a file is left with.
* `Written`: A file system with the plan files of some outputs.

## Theorems

* `way_parentOf_subset`: The directories that are made are those that a plan
  file needs.
* `writePlan_entry`: Writing one plan, with or without a fault.
* `writePlan_written`: Writing one plan without a fault.
* `written_append`: Some outputs, and then others.
* `writeAll_written`: Writing all plans without a fault.
-/

namespace ClientPlan

namespace Generation

/-- The last of some outputs whose plan file has a given address. -/
def lastAt? (cwd : Path) (outputs : List Output) (b : Address) : Option Output :=
  outputs.reverse.find? fun o => Path.address cwd o.file = b

/-- The second file system is the first one with the plan files of some outputs
    and the directories above them. -/
structure Written (cwd : Path) (before after : FileSystem) (outputs : List Output) : Prop where
  /-- The plans and the directories are there, and everything else is as
      before. -/
  entries : ∀ b, after.at? b =
    match lastAt? cwd outputs b with
    | some o => some (.file o.planned.plan.bytes)
    | none =>
      if ∃ o ∈ outputs, b ∈ Path.above cwd o.file then some .directory else before.at? b
  /-- No plan file has taken the place of a directory. -/
  files : ∀ o ∈ outputs, before.at? (Path.address cwd o.file) ≠ some .directory
  /-- No directory has taken the place of a file. -/
  directories : ∀ o ∈ outputs, ∀ b ∈ Path.above cwd o.file,
    before.at? b = none ∨ before.at? b = some .directory

/-- The plan file stands in the directory that is made for it. -/
theorem way_parentOf_subset (cwd : Path) (o : Output) (b : Address)
    (hb : b ∈ Path.way cwd (parentOf o)) : b ∈ Path.above cwd o.file := by
  have hslash : '/' ∉ Output.ending := by decide
  have hdirectory : Path.directory o.file = Path.directory o.path :=
    Path.directory_append o.path Output.ending hslash
  have hname : Path.lastName o.file ≠ [] := by
    rw [Output.file, Path.lastName_append o.path Output.ending hslash]
    exact List.append_ne_nil_of_right_ne_nil _ (by decide)
  refine Path.mem_above_of_mem_way_directory cwd o.file b hname ?_
  rw [hdirectory]
  exact Path.mem_way_of_mem_way_orHere cwd (Path.directory o.path) b hb

theorem writePlan_eq_ok (fs fs' : FileSystem) (cwd : Path) (o : Output)
    (h : writePlan fs cwd o = (fs', none)) :
    ∃ made, fs.makeDirectories cwd (parentOf o) = (made, none) ∧
      made.write cwd o.file o.planned.plan.bytes = .ok fs' := by
  unfold writePlan at h
  rcases hmade : fs.makeDirectories cwd (parentOf o) with ⟨made, _ | fault⟩
  · rw [hmade] at h
    rcases hwrite : made.write cwd o.file o.planned.plan.bytes with fault | written
    · simp only [hwrite, Prod.mk.injEq, reduceCtorEq, and_false] at h
    · simp only [hwrite, Prod.mk.injEq, and_true] at h
      exact ⟨made, rfl, by rw [hwrite, h]⟩
  · simp only [hmade, Prod.mk.injEq, reduceCtorEq, and_false] at h

/-- A plan, written or not, leaves an entry as it was, adds a directory, or puts the file
    of the plan there. -/
theorem writePlan_entry (fs : FileSystem) (cwd : Path) (o : Output) (b : Address) :
    (writePlan fs cwd o).1.at? b = fs.at? b ∨
      (fs.at? b = none ∧ (writePlan fs cwd o).1.at? b = some .directory) ∨
      (Path.address cwd o.file = b ∧
        (writePlan fs cwd o).1.at? b = some (.file o.planned.plan.bytes)) := by
  have hadds := FileSystem.makeDirectories_addsOnWay fs cwd (parentOf o)
  unfold writePlan
  rcases hmade : fs.makeDirectories cwd (parentOf o) with ⟨made, fault⟩
  rw [hmade] at hadds
  -- Before the file is written there are new directories at most.
  have hmadeEntry : made.at? b = fs.at? b ∨ (fs.at? b = none ∧ made.at? b = some .directory) :=
    (hadds b).imp_right And.right
  rcases fault with _ | fault
  · rcases hwrite : made.write cwd o.file o.planned.plan.bytes with fault | written
    · simp only [hwrite]
      exact hmadeEntry.imp_right Or.inl
    · rcases FileSystem.write_eq_ok made written cwd o.file _ hwrite with ⟨hne, rfl, -, -⟩
      simp only [hwrite, FileSystem.at?_set made _ b _ hne]
      by_cases hb : Path.address cwd o.file = b
      · rw [if_pos hb]
        exact Or.inr (Or.inr ⟨hb, rfl⟩)
      · rw [if_neg hb]
        exact hmadeEntry.imp_right Or.inl
  · exact hmadeEntry.imp_right Or.inl

/-- Writing one plan changes the entry at one address, besides the directories
    above it. -/
theorem writePlan_written (fs fs' : FileSystem) (cwd : Path) (o : Output)
    (h : writePlan fs cwd o = (fs', none)) : Written cwd fs fs' [o] := by
  rcases writePlan_eq_ok fs fs' cwd o h with ⟨made, hmade, hwrite⟩
  -- First directories are added, and then one entry is set.
  have hadds := FileSystem.makeDirectories_addsOnWay fs cwd (parentOf o)
  rw [hmade] at hadds
  rcases FileSystem.write_eq_ok made fs' cwd o.file _ hwrite with ⟨hne, rfl, hfree, habove⟩
  constructor
  · intro b
    rw [FileSystem.at?_set made _ b _ hne]
    by_cases hb : Path.address cwd o.file = b
    · simp only [lastAt?, List.reverse_singleton, List.find?_singleton, hb, decide_true, if_true]
    · simp only [lastAt?, List.reverse_singleton, List.find?_singleton, hb, decide_false,
        Bool.false_eq_true, if_false, List.mem_singleton, exists_eq_left]
      split
      · rename_i habove'
        exact habove b habove'
      · rename_i helsewhere
        rcases hadds b with hsame | ⟨hway, -, -⟩
        · exact hsame
        · exact absurd (way_parentOf_subset cwd o b hway) helsewhere
  · intro p hp
    rw [List.mem_singleton.1 hp]
    -- A directory that was in the way from the start would still be.
    rcases hadds (Path.address cwd o.file) with hsame | ⟨-, hnone, -⟩
    · rw [← hsame]
      exact hfree
    · rw [hnone]
      exact (Option.some_ne_none _).symm
  · intro p hp b hb
    rw [List.mem_singleton.1 hp] at hb
    rcases hadds b with hsame | ⟨-, hnone, -⟩
    · rw [← hsame]
      exact Or.inr (habove b hb)
    · exact Or.inl hnone

theorem written_nil (cwd : Path) (fs : FileSystem) : Written cwd fs fs [] where
  entries := fun _ => by simp only [lastAt?, List.reverse_nil, List.find?_nil, List.not_mem_nil,
    false_and, exists_false, if_false]
  files := fun _ ho => by cases ho
  directories := fun _ ho => by cases ho

theorem lastAt?_append (cwd : Path) (outputs more : List Output) (b : Address) :
    lastAt? cwd (outputs ++ more) b = (lastAt? cwd more b).or (lastAt? cwd outputs b) := by
  rw [lastAt?, List.reverse_append, List.find?_append]
  rfl

theorem lastAt?_eq_some (cwd : Path) (outputs : List Output) (b : Address) (o : Output)
    (h : lastAt? cwd outputs b = some o) : o ∈ outputs ∧ Path.address cwd o.file = b := by
  unfold lastAt? at h
  have haddress := List.find?_some h
  rw [decide_eq_true_eq] at haddress
  exact ⟨List.mem_reverse.1 (List.mem_of_find?_eq_some h), haddress⟩

/-- What some outputs have done decides, at each address, between a plan file, a
    directory and what stood there before. -/
theorem written_cases (cwd : Path) (before after : FileSystem) (outputs : List Output)
    (h : Written cwd before after outputs) (b : Address) :
    (∃ o ∈ outputs, lastAt? cwd outputs b = some o ∧ Path.address cwd o.file = b ∧
        after.at? b = some (.file o.planned.plan.bytes)) ∨
      (lastAt? cwd outputs b = none ∧ (∃ o ∈ outputs, b ∈ Path.above cwd o.file) ∧
        after.at? b = some .directory) ∨
      (lastAt? cwd outputs b = none ∧ (¬∃ o ∈ outputs, b ∈ Path.above cwd o.file) ∧
        after.at? b = before.at? b) := by
  have hentry := h.entries b
  rcases hlast : lastAt? cwd outputs b with _ | o
  · simp only [hlast] at hentry
    by_cases habove : ∃ o ∈ outputs, b ∈ Path.above cwd o.file
    · rw [if_pos habove] at hentry
      exact Or.inr (Or.inl ⟨rfl, habove, hentry⟩)
    · rw [if_neg habove] at hentry
      exact Or.inr (Or.inr ⟨rfl, habove, hentry⟩)
  · simp only [hlast] at hentry
    rcases lastAt?_eq_some cwd outputs b o hlast with ⟨ho, haddress⟩
    exact Or.inl ⟨o, ho, rfl, haddress, hentry⟩

theorem not_file_of_mem_above (cwd : Path) (before after : FileSystem) (outputs : List Output)
    (h : Written cwd before after outputs) (o : Output) (ho : o ∈ outputs) (b : Address)
    (hb : b ∈ Path.above cwd o.file) (content : List UInt8) :
    before.at? b ≠ some (.file content) := by
  intro hfile
  rcases h.directories o ho b hb with hnone | hdirectory
  · rw [hfile] at hnone
    cases hnone
  · rw [hfile] at hdirectory
    cases hdirectory

/-- Some outputs are written, and then others. The later ones leave directories
    directories and files files, so it does not matter that they have found the
    earlier ones there. -/
theorem written_append (cwd : Path) (fs fs' fs'' : FileSystem) (outputs more : List Output)
    (h : Written cwd fs fs' outputs) (h' : Written cwd fs' fs'' more) :
    Written cwd fs fs'' (outputs ++ more) := by
  constructor
  · intro b
    rw [lastAt?_append]
    simp only [List.mem_append, or_and_right, exists_or]
    rcases written_cases cwd fs' fs'' more h' b with
      ⟨o, -, hlast, -, hentry⟩ | ⟨hlast, habove, hentry⟩ | ⟨hlast, helsewhere, hentry⟩
    · rw [hlast, hentry]
      rfl
    · rw [hlast, hentry, Option.none_or]
      rcases written_cases cwd fs fs' outputs h b with
        ⟨o, -, -, -, hfile⟩ | ⟨hlast', -, -⟩ | ⟨hlast', -, -⟩
      · -- A directory was made or found where there was a file.
        rcases habove with ⟨p, hp, hb⟩
        exact absurd hfile (not_file_of_mem_above cwd fs' fs'' more h' p hp b hb _)
      · simp only [hlast', habove, or_true, if_true]
      · simp only [hlast', habove, or_true, if_true]
    · -- The later outputs leave the address alone.
      rw [hlast, hentry, Option.none_or, h.entries b]
      simp only [helsewhere, or_false]
  · intro o ho
    rcases List.mem_append.1 ho with ho | ho
    · exact h.files o ho
    · intro hdirectory
      -- The earlier outputs keep a directory, so the later ones have found it.
      refine h'.files o ho ?_
      rcases written_cases cwd fs fs' outputs h (Path.address cwd o.file) with
        ⟨p, hp, -, haddress, -⟩ | ⟨-, -, hentry⟩ | ⟨-, -, hentry⟩
      · exact absurd (haddress ▸ hdirectory) (h.files p hp)
      · exact hentry
      · exact hentry.trans hdirectory
  · intro o ho b hb
    rcases List.mem_append.1 ho with ho | ho
    · exact h.directories o ho b hb
    · rcases written_cases cwd fs fs' outputs h b with
        ⟨p, -, -, -, hentry⟩ | ⟨-, ⟨p, hp, habove⟩, -⟩ | ⟨-, -, hentry⟩
      · exact absurd hentry (not_file_of_mem_above cwd fs' fs'' more h' o ho b hb _)
      · exact h.directories p hp b habove
      · rw [← hentry]
        exact h'.directories o ho b hb

/-- When nothing stops the last stage, it has written the first plan and then the
    others. -/
theorem writeAll_cons_eq_ok (fs fs' : FileSystem) (cwd : Path) (o : Output)
    (outputs : List Output) (log : List Log.Entry)
    (h : writeAll fs cwd (o :: outputs) = (fs', log, none)) :
    ∃ next rest, writePlan fs cwd o = (next, none) ∧
      writeAll next cwd outputs = (fs', rest, none) ∧ log = writtenEntry o :: rest := by
  rw [writeAll] at h
  rcases hwrite : writePlan fs cwd o with ⟨next, _ | fault⟩
  · rcases hrest : writeAll next cwd outputs with ⟨last, rest, fault⟩
    simp only [hwrite, hrest, Prod.mk.injEq] at h
    rcases h with ⟨rfl, rfl, rfl⟩
    exact ⟨next, rest, rfl, hrest, rfl⟩
  · simp only [hwrite, Prod.mk.injEq, reduceCtorEq, and_false] at h

/-- When nothing stops it, the last stage writes all plans. -/
theorem writeAll_written (fs fs' : FileSystem) (cwd : Path) (outputs : List Output)
    (log : List Log.Entry) (h : writeAll fs cwd outputs = (fs', log, none)) :
    Written cwd fs fs' outputs := by
  induction outputs generalizing fs log with
  | nil =>
      cases h
      exact written_nil cwd _
  | cons o outputs ih =>
      rcases writeAll_cons_eq_ok fs fs' cwd o outputs log h with ⟨next, rest, hwrite, hrest, -⟩
      exact written_append cwd fs next fs' [o] outputs (writePlan_written fs next cwd o hwrite)
        (ih next rest hrest)

end Generation

end ClientPlan
