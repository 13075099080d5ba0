import ClientPlan.Proofs.FileSystem.Growth
import ClientPlan.Proofs.Generation.Clearance

/-!
# Plans That Are Written Again

What writing some plans does when they have all been written before.

Plans that have been written are standing: the directories above them are there, and
files where they go, though perhaps with the content of another plan if two of them go
to the same place. Writing a plan that is standing makes no directory and only sets the
content of its file, so it leaves all plans standing. Writing all of them again, in the
same order, leaves the content that the first time has left everywhere, and so the same
file system.

Files are only ever written under the names of plan files, so a run adds nothing else
but directories (`Written.grown`).

## Main definitions

* `IsPlanAddress`: An address with the name of a plan file.
* `Standing`: Plans that have been written.

## Theorems

* `Written.grown`: The growth of a file system by plans.
* `writeAll_wellFormed`: What is left is well formed.
* `standing_of_writeAll`: Plans that have been written are standing.
* `writeAll_of_standing`: Writing plans that are standing.
* `writeAll_again`: Writing all plans again changes nothing.
-/

namespace ClientPlan

namespace Generation

/-- Whether an address has the name of a plan file. -/
def IsPlanAddress (b : Address) : Prop :=
  ∃ a name, b = a ++ [name ++ Output.ending]

/-- Writing plans adds directories, and files under the names of plans. -/
theorem Written.grown {cwd : Path} {fs fs' : FileSystem} {outputs : List Output}
    (h : Written cwd fs fs' outputs) : FileSystem.Grown IsPlanAddress fs fs' := by
  constructor
  · intro b hb
    -- A plan's file, a directory on the way to one, or as before.
    rcases written_cases cwd fs fs' outputs h b with
      ⟨o, ho, -, haddress, -⟩ | ⟨-, -, hentry⟩ | ⟨-, -, hentry⟩
    · exact absurd (haddress ▸ hb) (h.files o ho)
    · exact hentry
    · exact hentry.trans hb
  · intro b content hb
    -- A file stays a file, perhaps with other content.
    rcases written_cases cwd fs fs' outputs h b with
      ⟨o, -, -, -, hentry⟩ | ⟨-, ⟨o, ho, habove⟩, -⟩ | ⟨-, -, hentry⟩
    · exact ⟨_, hentry⟩
    · exact absurd hb (not_file_of_mem_above cwd fs fs' outputs h o ho b habove content)
    · exact ⟨content, hentry.trans hb⟩
  · intro b content hb
    rcases written_cases cwd fs fs' outputs h b with
      ⟨o, -, -, haddress, -⟩ | ⟨-, -, hentry⟩ | ⟨-, -, hentry⟩
    · rw [← haddress, Output.address_file]
      exact Or.inl ⟨_, _, rfl⟩
    · rw [hentry] at hb
      cases hb
    · exact Or.inr (hentry.symm.trans hb)

/-- Writing plans leaves a file system well formed. -/
theorem writeAll_wellFormed (fs fs' : FileSystem) (cwd : Path) (outputs : List Output)
    (log : List Log.Entry) (hfs : fs.WellFormed)
    (h : writeAll fs cwd outputs = (fs', log, none)) : fs'.WellFormed := by
  -- By induction on the outputs: directories are made, and then a file is set.
  induction outputs generalizing fs log with
  | nil =>
      cases h
      exact hfs
  | cons out outputs ih =>
      rcases writeAll_cons_eq_ok fs fs' cwd out outputs log h with ⟨next, rest, hfirst, hrest, -⟩
      rcases writePlan_eq_ok fs next cwd out hfirst with ⟨made, hmade, hwrite⟩
      have hwell := hfs.makeDirectories cwd (parentOf out)
      rw [hmade] at hwell
      exact ih next rest (hwell.write next cwd out.file _ hwrite) hrest

/-- Plans that have been written: what they need above them is there, and there are
    files where they go. -/
structure Standing (cwd : Path) (fs : FileSystem) (outputs : List Output) : Prop where
  admissible : ∀ out ∈ outputs, FileSystem.Admissible cwd out.file
  above : ∀ out ∈ outputs, ∀ b ∈ Path.above cwd out.file, fs.at? b = some .directory
  file : ∀ out ∈ outputs, ∃ content,
    fs.at? (Path.address cwd out.file) = some (.file content)

/-- A file system that has grown has all plans standing that were standing before. -/
theorem Standing.grown {cwd : Path} {isNew : Address → Prop} {fs fs' : FileSystem}
    {outputs : List Output} (h : Standing cwd fs outputs)
    (hgrown : FileSystem.Grown isNew fs fs') : Standing cwd fs' outputs where
  admissible := h.admissible
  above := fun out hout b hb => hgrown.directories b (h.above out hout b hb)
  file := by
    intro out hout
    rcases h.file out hout with ⟨content, hcontent⟩
    exact hgrown.files _ content hcontent

theorem standing_cons_iff (cwd : Path) (fs : FileSystem) (out : Output) (outputs : List Output) :
    Standing cwd fs (out :: outputs) ↔ Standing cwd fs [out] ∧ Standing cwd fs outputs := by
  constructor
  · intro h
    exact ⟨⟨List.forall_mem_singleton.2 (h.admissible out List.mem_cons_self),
        List.forall_mem_singleton.2 (h.above out List.mem_cons_self),
        List.forall_mem_singleton.2 (h.file out List.mem_cons_self)⟩,
      ⟨fun o ho => h.admissible o (List.mem_cons_of_mem out ho),
        fun o ho => h.above o (List.mem_cons_of_mem out ho),
        fun o ho => h.file o (List.mem_cons_of_mem out ho)⟩⟩
  · rintro ⟨hout, hrest⟩
    exact ⟨List.forall_mem_cons.2 ⟨hout.admissible out List.mem_cons_self, hrest.admissible⟩,
      List.forall_mem_cons.2 ⟨hout.above out List.mem_cons_self, hrest.above⟩,
      List.forall_mem_cons.2 ⟨hout.file out List.mem_cons_self, hrest.file⟩⟩

theorem standing_of_writePlan (fs fs' : FileSystem) (cwd : Path) (out : Output)
    (h : writePlan fs cwd out = (fs', none)) : Standing cwd fs' [out] := by
  rcases writePlan_eq_ok fs fs' cwd out h with ⟨made, -, hwrite⟩
  rcases FileSystem.write_eq_ok made fs' cwd out.file _ hwrite with ⟨hne, rfl, hfree, habove⟩
  have hadmissible := FileSystem.Admissible.of_write hwrite
  constructor
  · exact List.forall_mem_singleton.2 hadmissible
  · refine List.forall_mem_singleton.2 fun b hb => ?_
    -- The file has been put where no directory is.
    have hother : Path.address cwd out.file ≠ b := by
      intro haddress
      rw [haddress] at hfree
      exact hfree (habove b hb)
    rw [FileSystem.at?_set made _ b _ hne, if_neg hother]
    exact habove b hb
  · refine List.forall_mem_singleton.2 ⟨out.planned.plan.bytes, ?_⟩
    rw [FileSystem.at?_set made _ _ _ hne, if_pos rfl]

/-- Plans that have been written are standing. -/
theorem standing_of_writeAll (fs fs' : FileSystem) (cwd : Path) (outputs : List Output)
    (log : List Log.Entry) (h : writeAll fs cwd outputs = (fs', log, none)) :
    Standing cwd fs' outputs := by
  induction outputs generalizing fs log with
  | nil => exact ⟨List.forall_mem_nil _, List.forall_mem_nil _, List.forall_mem_nil _⟩
  | cons out outputs ih =>
      rcases writeAll_cons_eq_ok fs fs' cwd out outputs log h with ⟨next, rest, hfirst, hrest, -⟩
      -- The later plans leave the first one standing.
      have hout := (standing_of_writePlan fs next cwd out hfirst).grown
        (writeAll_written next fs' cwd outputs rest hrest).grown
      exact (standing_cons_iff cwd fs' out outputs).2 ⟨hout, ih next rest hrest⟩

/-- Writing a plan that is standing only sets the content of its file. -/
theorem writePlan_of_standing (fs : FileSystem) (cwd : Path) (out : Output)
    (h : Standing cwd fs [out]) :
    writePlan fs cwd out =
      (fs.set (Path.address cwd out.file) (.file out.planned.plan.bytes), none) := by
  have hmem : out ∈ [out] := List.mem_singleton.2 rfl
  have hadmissible := h.admissible out hmem
  -- The directories are there, so nothing has to be made.
  have hmade := FileSystem.makeDirectories_of_there fs cwd (parentOf out)
    (admissible_parentOf cwd out hadmissible)
    (fun b hb => h.above out hmem b (way_parentOf_subset cwd out b hb))
  have hfree : fs.at? (Path.address cwd out.file) ≠ some .directory := by
    rcases h.file out hmem with ⟨content, hcontent⟩
    rw [hcontent]
    exact fun hdirectory => Entry.noConfusion (Option.some.inj hdirectory)
  have hwrite := FileSystem.write_of_above fs cwd out.file out.planned.plan.bytes hadmissible
    out.lastName_file_ne_nil out.lastName_file_not_moves (h.above out hmem) hfree
  rw [writePlan, hmade]
  simp only [hwrite]

/-- Writing plans that are standing succeeds and leaves all addresses as they are. -/
theorem writeAll_of_standing (fs : FileSystem) (cwd : Path) (outputs : List Output)
    (h : Standing cwd fs outputs) :
    ∃ fs', writeAll fs cwd outputs = (fs', outputs.map writtenEntry, none) ∧
      fs'.entries.map (·.1) = fs.entries.map (·.1) := by
  -- By induction on the outputs: each one leaves the later ones standing.
  induction outputs generalizing fs with
  | nil => exact ⟨fs, rfl, rfl⟩
  | cons out outputs ih =>
      rcases (standing_cons_iff cwd fs out outputs).1 h with ⟨hfirst, hrest⟩
      have hwrite := writePlan_of_standing fs cwd out hfirst
      rcases ih _ (hrest.grown (writePlan_written fs _ cwd out hwrite).grown) with
        ⟨fs', hall, hkeys⟩
      refine ⟨fs', by rw [writeAll, hwrite]; simp only [hall, List.map_cons], ?_⟩
      rcases h.file out List.mem_cons_self with ⟨content, hcontent⟩
      have hne : Path.address cwd out.file ≠ [] := by
        rw [Output.address_file]
        exact List.append_ne_nil_of_right_ne_nil _ (List.cons_ne_nil _ [])
      rw [hkeys, FileSystem.keys_set fs _ _ hne (by rw [hcontent, Option.isSome_some])]

/-- Each plan that is written is reported. -/
theorem log_writeAll (fs fs' : FileSystem) (cwd : Path) (outputs : List Output)
    (log : List Log.Entry) (h : writeAll fs cwd outputs = (fs', log, none)) :
    log = outputs.map writtenEntry := by
  induction outputs generalizing fs log with
  | nil =>
      cases h
      rfl
  | cons out outputs ih =>
      rcases writeAll_cons_eq_ok fs fs' cwd out outputs log h with ⟨next, rest, -, hrest, rfl⟩
      rw [List.map_cons, ← ih next rest hrest]

/-- Writing all plans again changes nothing. -/
theorem writeAll_again (fs fs' : FileSystem) (cwd : Path) (outputs : List Output)
    (log : List Log.Entry) (hfs : fs.WellFormed)
    (h : writeAll fs cwd outputs = (fs', log, none)) :
    writeAll fs' cwd outputs = (fs', log, none) := by
  have hwritten := writeAll_written fs fs' cwd outputs log h
  rcases writeAll_of_standing fs' cwd outputs (standing_of_writeAll fs fs' cwd outputs log h) with
    ⟨again, hagain, hkeys⟩
  have hrewritten := writeAll_written fs' again cwd outputs _ hagain
  -- Each address is left with what the outputs say, as it was the first time.
  have hat : ∀ b, again.at? b = fs'.at? b := by
    intro b
    rcases written_cases cwd fs' again outputs hrewritten b with
      ⟨o, -, hlast, -, hentry⟩ | ⟨hlast, habove, hentry⟩ | ⟨-, -, hentry⟩
    · rw [hentry, hwritten.entries b, hlast]
    · rw [hentry, hwritten.entries b, hlast]
      simp only [habove, if_true]
    · exact hentry
  have hsame : again = fs' :=
    (writeAll_wellFormed fs fs' cwd outputs log hfs h).eq_of_at? hkeys hat
  rw [hagain, hsame, log_writeAll fs fs' cwd outputs log h]

end Generation

end ClientPlan
