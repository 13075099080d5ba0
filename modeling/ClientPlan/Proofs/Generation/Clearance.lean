import ClientPlan.Proofs.FileSystem.Progress
import ClientPlan.Proofs.Generation.Files
import ClientPlan.Proofs.Generation.Writing

/-!
# Plans That Can Be Written

What has to be out of the way for some plans to be written.

Writing a plan makes the directories that its file needs, and then the file. Nothing is
in the way if no file stands where a directory is needed and no directory where the
file goes. Several plans can be written one after the other if this is so for each of
them before the first one is written, and none of them needs a directory where another
one, or itself, puts its file. Then each plan that is written leaves the others as
clear as they were, so the last stage of a run goes through all of them.

## Main definitions

* `Clear`: Plans with nothing in their way.

## Theorems

* `writePlan_of_clear`: A plan with nothing in its way is written.
* `clear_of_writePlan`: Writing a plan leaves the later ones clear.
* `writeAll_of_clear`: Plans with nothing in their way are written.
* `writeAll_append`, `writeAll_keeps`: Writing some plans and then others, and a file
  that none of them replaces.
-/

namespace ClientPlan

namespace Generation

/-- Whether nothing is in the way of the plan files of some outputs. -/
structure Clear (cwd : Path) (fs : FileSystem) (outputs : List Output) : Prop where
  admissible : ∀ out ∈ outputs, FileSystem.Admissible cwd out.file
  /-- The working directory is there, if a path is seen from it. -/
  rooted : ∀ out ∈ outputs, Path.isAbsolute out.file = false →
    ∀ b ∈ Path.way cwd [], fs.at? b = some .directory
  /-- No file stands where a directory is needed. -/
  above : ∀ out ∈ outputs, ∀ b ∈ Path.above cwd out.file,
    fs.at? b = none ∨ fs.at? b = some .directory
  /-- No directory stands where a plan goes. -/
  file : ∀ out ∈ outputs, fs.at? (Path.address cwd out.file) ≠ some .directory
  /-- No plan goes where a directory is needed. -/
  apart : ∀ out ∈ outputs, ∀ other ∈ outputs,
    Path.address cwd other.file ∉ Path.above cwd out.file

theorem clear_iff (cwd : Path) (fs : FileSystem) (outputs : List Output) :
    Clear cwd fs outputs ↔
      (∀ out ∈ outputs, FileSystem.Admissible cwd out.file) ∧
        (∀ out ∈ outputs, Path.isAbsolute out.file = false →
          ∀ b ∈ Path.way cwd [], fs.at? b = some .directory) ∧
        (∀ out ∈ outputs, ∀ b ∈ Path.above cwd out.file,
          fs.at? b = none ∨ fs.at? b = some .directory) ∧
        (∀ out ∈ outputs, fs.at? (Path.address cwd out.file) ≠ some .directory) ∧
        ∀ out ∈ outputs, ∀ other ∈ outputs,
          Path.address cwd other.file ∉ Path.above cwd out.file :=
  ⟨fun h => ⟨h.admissible, h.rooted, h.above, h.file, h.apart⟩,
    fun h => ⟨h.1, h.2.1, h.2.2.1, h.2.2.2.1, h.2.2.2.2⟩⟩

instance (cwd : Path) (fs : FileSystem) (outputs : List Output) :
    Decidable (Clear cwd fs outputs) :=
  decidable_of_iff _ (clear_iff cwd fs outputs).symm

theorem isAbsolute_parentOf (out : Output) :
    Path.isAbsolute (parentOf out) = Path.isAbsolute out.file := by
  rw [← Path.isAbsolute_directory out.file, Output.directory_file, parentOf]
  by_cases hnil : Path.directory out.path = []
  · rw [Path.orHere, if_pos hnil, hnil]
    rfl
  · rw [Path.orHere_of_ne_nil _ hnil]

/-- What a plan file needs above it is on the way of the directory that is made. -/
theorem mem_way_parentOf (cwd : Path) (out : Output) (b : Address)
    (hb : b ∈ Path.above cwd out.file) : b ∈ Path.way cwd (parentOf out) := by
  have hway := Path.mem_way_directory_of_mem_above cwd out.file b out.lastName_file_ne_nil hb
  rw [Output.directory_file] at hway
  exact Path.mem_way_orHere_of_mem_way cwd _ b hway

/-- The system takes the directory of a plan file if it takes the file. -/
theorem admissible_parentOf (cwd : Path) (out : Output)
    (h : FileSystem.Admissible cwd out.file) : FileSystem.Admissible cwd (parentOf out) := by
  have hnames : ∀ name ∈ Path.names (Path.join cwd (Path.directory out.path)),
      name ∈ Path.names (Path.join cwd out.file) := by
    intro name hname
    rw [Path.names_join_directory cwd out.file, Output.directory_file]
    exact List.mem_append_left _ hname
  by_cases hnil : Path.directory out.path = []
  · have hparent : parentOf out = Path.here := by
      rw [parentOf, Path.orHere, if_pos hnil]
    rw [hparent]
    refine ⟨List.cons_ne_nil _ _, by decide, by decide, ?_⟩
    -- Besides the names of the working directory there is only a short one.
    intro name hname
    have hhere := Path.names_join_orHere cwd (Path.directory out.path)
    rw [← parentOf, hparent] at hhere
    rcases hhere with hsame | hjoin
    · rw [hsame] at hname
      exact h.names name (hnames name hname)
    · rw [hjoin] at hname
      rcases List.mem_append.1 hname with hname | hname
      · exact h.names name (hnames name hname)
      · rw [List.mem_singleton.1 hname]
        decide
  · rw [parentOf, Path.orHere_of_ne_nil _ hnil]
    refine h.of_prefix _ hnil ?_ hnames
    rw [← Output.directory_file]
    exact Path.directory_prefix out.file

/-- A plan with nothing in its way is written. -/
theorem writePlan_of_clear (fs : FileSystem) (cwd : Path) (out : Output)
    (h : Clear cwd fs [out]) : ∃ fs', writePlan fs cwd out = (fs', none) := by
  have hmem : out ∈ [out] := List.mem_singleton.2 rfl
  have hfile := h.admissible out hmem
  rcases FileSystem.makeDirectories_of_way fs cwd (parentOf out) (admissible_parentOf cwd out hfile)
    (by rw [isAbsolute_parentOf]; exact h.rooted out hmem)
    (fun b hb => h.above out hmem b (way_parentOf_subset cwd out b hb)) with
    ⟨made, hmade, hdirectories⟩
  have hadds := FileSystem.makeDirectories_addsOnWay fs cwd (parentOf out)
  rw [hmade] at hadds
  -- Making the directories has not put one where the file goes.
  have hfree : made.at? (Path.address cwd out.file) ≠ some .directory := by
    rcases hadds (Path.address cwd out.file) with hsame | ⟨hway, -, -⟩
    · rw [hsame]
      exact h.file out hmem
    · exact absurd (way_parentOf_subset cwd out _ hway) (h.apart out hmem out hmem)
  have hwrite := FileSystem.write_of_above made cwd out.file out.planned.plan.bytes hfile
    out.lastName_file_ne_nil out.lastName_file_not_moves
    (fun b hb => hdirectories b (mem_way_parentOf cwd out b hb)) hfree
  exact ⟨_, by rw [writePlan, hmade]; simp only [hwrite]; rfl⟩

/-- Writing a plan leaves the later ones as clear as they were. -/
theorem clear_of_writePlan (fs fs' : FileSystem) (cwd : Path) (out : Output)
    (outputs : List Output) (h : Clear cwd fs (out :: outputs))
    (hwrite : writePlan fs cwd out = (fs', none)) : Clear cwd fs' outputs := by
  have hmem : out ∈ out :: outputs := List.mem_cons_self
  have hrest : ∀ other ∈ outputs, other ∈ out :: outputs :=
    fun other hother => List.mem_cons_of_mem out hother
  have hwritten := writePlan_written fs fs' cwd out hwrite
  have hentry := written_cases cwd fs fs' [out] hwritten
  -- The plan's file, a directory above it, or as before: these are the cases of an entry.
  constructor
  · exact fun other hother => h.admissible other (hrest other hother)
  · intro other hother hrelative b hb
    have hbefore := h.rooted other (hrest other hother) hrelative b hb
    rcases hentry b with ⟨o, ho, -, haddress, -⟩ | ⟨-, -, hdirectory⟩ | ⟨-, -, hsame⟩
    · rw [List.mem_singleton.1 ho] at haddress
      rw [← haddress] at hbefore
      exact absurd hbefore (h.file out hmem)
    · exact hdirectory
    · exact hsame.trans hbefore
  · intro other hother b hb
    rcases hentry b with ⟨o, ho, -, haddress, -⟩ | ⟨-, -, hdirectory⟩ | ⟨-, -, hsame⟩
    · -- The file that was written is not where a later one needs a directory.
      rw [List.mem_singleton.1 ho] at haddress
      rw [← haddress] at hb
      exact absurd hb (h.apart other (hrest other hother) out hmem)
    · exact Or.inr hdirectory
    · rw [hsame]
      exact h.above other (hrest other hother) b hb
  · intro other hother
    rcases hentry (Path.address cwd other.file) with
      ⟨o, -, -, -, hfile⟩ | ⟨-, ⟨o, ho, habove⟩, -⟩ | ⟨-, -, hsame⟩
    · rw [hfile]
      exact fun hdirectory => Entry.noConfusion (Option.some.inj hdirectory)
    · rw [List.mem_singleton.1 ho] at habove
      exact absurd habove (h.apart out hmem other (hrest other hother))
    · rw [hsame]
      exact h.file other (hrest other hother)
  · exact fun o ho other hother => h.apart o (hrest o ho) other (hrest other hother)

theorem Clear.head {cwd : Path} {fs : FileSystem} {out : Output} {outputs : List Output}
    (h : Clear cwd fs (out :: outputs)) : Clear cwd fs [out] := by
  have hmem : ∀ o ∈ [out], o ∈ out :: outputs := by
    intro o ho
    rw [List.mem_singleton.1 ho]
    exact List.mem_cons_self
  exact ⟨fun o ho => h.admissible o (hmem o ho), fun o ho => h.rooted o (hmem o ho),
    fun o ho => h.above o (hmem o ho), fun o ho => h.file o (hmem o ho),
    fun o ho other hother => h.apart o (hmem o ho) other (hmem other hother)⟩

/-- Plans with nothing in their way are written. -/
theorem writeAll_of_clear (fs : FileSystem) (cwd : Path) (outputs : List Output)
    (h : Clear cwd fs outputs) :
    ∃ fs' log, writeAll fs cwd outputs = (fs', log, none) := by
  induction outputs generalizing fs with
  | nil => exact ⟨fs, [], rfl⟩
  | cons out outputs ih =>
      rcases writePlan_of_clear fs cwd out h.head with ⟨next, hwrite⟩
      rcases ih next (clear_of_writePlan fs next cwd out outputs h hwrite) with ⟨fs', log, hrest⟩
      exact ⟨fs', writtenEntry out :: log, by simp only [writeAll, hwrite, hrest]⟩

theorem writeAll_append (fs fs' : FileSystem) (cwd : Path) (front rest : List Output)
    (log : List Log.Entry) (h : writeAll fs cwd front = (fs', log, none)) :
    (writeAll fs cwd (front ++ rest)).1 = (writeAll fs' cwd rest).1 := by
  induction front generalizing fs log with
  | nil =>
      cases h
      rfl
  | cons out front ih =>
      rcases writeAll_cons_eq_ok fs fs' cwd out front log h with ⟨next, entries, hwrite, hfront, -⟩
      rw [List.cons_append, writeAll, hwrite]
      exact ih next entries hfront

/-- A file is still there after a plan was written, or could not be, unless it is the
    plan file. -/
theorem writePlan_keeps (fs : FileSystem) (cwd : Path) (out : Output) (b : Address)
    (content : List UInt8) (h : fs.at? b = some (.file content))
    (hout : Path.address cwd out.file = b → out.planned.plan.bytes = content) :
    (writePlan fs cwd out).1.at? b = some (.file content) := by
  rcases writePlan_entry fs cwd out b with hsame | ⟨hnone, -⟩ | ⟨haddress, hfile⟩
  · exact hsame.trans h
  · rw [hnone] at h
    cases h
  · rw [hfile, hout haddress]

/-- A file that no plan replaces by something else is still there at the end. -/
theorem writeAll_keeps (fs : FileSystem) (cwd : Path) (outputs : List Output) (b : Address)
    (content : List UInt8) (h : fs.at? b = some (.file content))
    (houtputs : ∀ out ∈ outputs, Path.address cwd out.file = b →
      out.planned.plan.bytes = content) :
    (writeAll fs cwd outputs).1.at? b = some (.file content) := by
  induction outputs generalizing fs with
  | nil => exact h
  | cons out outputs ih =>
      have hfirst := writePlan_keeps fs cwd out b content h (houtputs out List.mem_cons_self)
      rw [writeAll]
      rcases hwrite : writePlan fs cwd out with ⟨next, _ | fault⟩
      · rw [hwrite] at hfirst
        exact ih next hfirst fun other hother => houtputs other (List.mem_cons_of_mem out hother)
      · rw [hwrite] at hfirst
        exact hfirst

end Generation

end ClientPlan
