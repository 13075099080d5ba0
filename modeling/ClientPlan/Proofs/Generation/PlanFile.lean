import ClientPlan.Proofs.FileSystem.Growth
import ClientPlan.Proofs.Generation.Writing
import ClientPlan.Proofs.Json.Characters

/-!
# Reading Plan Files

A plan that was written can be read back from its file.

The document of a plan holds texts, truth values, null, lists and objects with fixed
names, so it is a plain value, whatever names and types the plan is about. Hence the
file is read as the document that was written into it, and a reader may take it for
ASCII: all of its bytes are, so no encoding and no treatment of line ends can get in
the way.

## Theorems

* `Encoding.plain_toJson`, `Instruction.plain_toJson`, `Decoder.plain_toJson`,
  `EndpointPlan.plain_toJson`, `ServicePlan.plain_toJson`: The documents are plain.
* `ServicePlan.ascii_text`: A plan file holds ASCII characters.
* `read_of_writePlan`: The content of the file, after it was written.
* `ServicePlan.file_reads_back`: The file is ASCII, ends in a line feed and is read as the
  document of the plan.
-/

namespace ClientPlan

namespace Json

/-- An object with the given values under different names. -/
theorem plain_obj (names : List String) (values : List Json) (entries : List (Str × Json))
    (hentries : entries = (names.zip values).map fun e => (.text e.1, e.2))
    (hlength : names.length ≤ values.length) (hnodup : names.Nodup)
    (hvalues : ∀ value ∈ values, Plain value) : Plain (.obj entries) := by
  have hnames : (names.zip values).map Prod.fst = names := List.map_fst_zip hlength
  rw [← hnames] at hnodup
  rw [hentries]
  exact Plain.obj _ hnodup fun e he => hvalues e.2 (List.of_mem_zip he).2

theorem plain_ofOption {α : Type} (f : α → Json) (h : ∀ x, Plain (f x)) (x : Option α) :
    Plain (ofOption f x) := by
  cases x with
  | none => exact Plain.null
  | some x => exact h x

end Json

open Json (Plain)

theorem Encoding.plain_toJson (e : Encoding) : Plain e.toJson := by
  rw [Encoding.toJson]
  -- An encoding without a type leaves its entry out.
  cases htype : e.type? with
  | none =>
      refine Json.plain_obj ["kind", "name"] [.ofText e.family, .ofText e.name] _ rfl
        (Nat.le_refl _) (by decide) ?_
      simp only [List.forall_mem_cons]
      exact ⟨Plain.text _, Plain.text _, List.forall_mem_nil _⟩
  | some type =>
      refine Json.plain_obj ["kind", "name", "type"]
        [.ofText e.family, .ofText e.name, .ofText type.describe] _ rfl (Nat.le_refl _)
        (by decide) ?_
      simp only [List.forall_mem_cons]
      exact ⟨Plain.text _, Plain.text _, Plain.text _, List.forall_mem_nil _⟩

theorem Instruction.plain_toJson (i : Instruction) : Plain i.toJson := by
  refine Json.plain_obj
    ["argument", "slot", "wireName", "encoding", "multiValued", "conditional"]
    [.ofText i.argument.name, .ofText i.slot.word, .ofOption .ofText i.wireName,
      i.encoding.toJson, .bool i.multiValued, .bool i.conditional] _ rfl (Nat.le_refl _)
    (by decide) ?_
  simp only [List.forall_mem_cons]
  exact ⟨Plain.text _, Plain.text _, Json.plain_ofOption _ Plain.text _, i.encoding.plain_toJson,
    Plain.bool _, Plain.bool _, List.forall_mem_nil _⟩

theorem Decoder.plain_toJson (d : Decoder) : Plain d.toJson := by
  refine Json.plain_obj ["kind", "handle", "type"]
    [.ofText d.word, .ofText d.handle, .ofOption (fun type => .ofText type.describe) d.type] _ rfl
    (Nat.le_refl _) (by decide) ?_
  simp only [List.forall_mem_cons]
  exact ⟨Plain.text _, Plain.text _, Json.plain_ofOption _ (fun type => Plain.text _) _,
    List.forall_mem_nil _⟩

theorem EndpointPlan.plain_toJson (p : EndpointPlan) : Plain p.toJson := by
  refine Json.plain_obj ["endpoint", "httpMethod", "httpPath", "instructions", "decoder"]
    [.ofText p.endpoint.name, .ofText p.endpoint.method, .ofText p.endpoint.path,
      .arr (p.instructions.map Instruction.toJson), p.decoder.toJson] _ rfl (Nat.le_refl _)
    (by decide) ?_
  simp only [List.forall_mem_cons]
  exact ⟨Plain.text _, Plain.text _, Plain.text _,
    Plain.arr _ (List.forall_mem_map.2 fun i _ => i.plain_toJson), p.decoder.plain_toJson,
    List.forall_mem_nil _⟩

/-- The document of a plan is a plain value. -/
theorem ServicePlan.plain_toJson (p : ServicePlan) : Plain p.toJson := by
  refine Json.plain_obj ["service", "package", "endpoints"]
    [.ofText p.service.name, .ofOption .ofText p.service.package,
      .arr (p.endpoints.map EndpointPlan.toJson)] _ rfl (Nat.le_refl _) (by decide) ?_
  simp only [List.forall_mem_cons]
  exact ⟨Plain.text _, Json.plain_ofOption _ Plain.text _,
    Plain.arr _ (List.forall_mem_map.2 fun e _ => e.plain_toJson), List.forall_mem_nil _⟩

theorem ServicePlan.ascii_text (p : ServicePlan) : ∀ c ∈ p.text, Text.IsAscii c :=
  Json.ascii_append (Json.ascii_renderAt p.toJson p.plain_toJson 0)
    (Json.ascii_word ['\n'] (by decide))

theorem ServicePlan.read_text (p : ServicePlan) : Json.read p.text = .ok p.toJson :=
  Json.read_render p.toJson p.plain_toJson ['\n'] rfl

/-- The last byte of the file is a line feed. -/
theorem ServicePlan.getLast?_bytes (p : ServicePlan) : p.bytes.getLast? = some 10 := by
  rw [ServicePlan.bytes, Utf8.encode_of_ascii p.text p.ascii_text, ServicePlan.text,
    List.map_append, List.map_singleton, List.getLast?_concat]
  rfl

namespace Generation

/-- The file of a plan that was written holds the plan. -/
theorem read_of_writePlan (fs fs' : FileSystem) (cwd : Path) (o : Output)
    (h : writePlan fs cwd o = (fs', none)) :
    fs'.read cwd o.file = .ok o.planned.plan.bytes := by
  rcases writePlan_eq_ok fs fs' cwd o h with ⟨made, -, hwrite⟩
  exact FileSystem.read_of_write made fs' cwd o.file _ hwrite

end Generation

/-- The plan file is ASCII and ends in a line feed, and its text, as it stands or with
    unified line ends, is read as the document of the plan. It is what stands under the
    path of the output as soon as the plan was written there. -/
theorem ServicePlan.file_reads_back (p : ServicePlan) :
    ((∀ b ∈ p.bytes, b.toNat < 128) ∧ p.bytes.getLast? = some 10 ∧
      ∃ text, Utf8.decode p.bytes = .ok text ∧ Text.unifyNewlines text = text ∧
        Json.read text = .ok p.toJson) ∧
    ∀ (fs fs' : FileSystem) (cwd : Path) (o : Output), o.planned.plan = p →
      Generation.writePlan fs cwd o = (fs', none) → fs'.read cwd o.file = .ok p.bytes := by
  -- All of this follows from the text being ASCII and from its reading.
  refine ⟨⟨?_, p.getLast?_bytes, p.text, ?_, ?_, p.read_text⟩, ?_⟩
  · exact Utf8.lt_of_mem_encode_of_ascii p.text p.ascii_text
  · exact Utf8.decode_encode_of_ascii p.text p.ascii_text
  · exact Text.unifyNewlines_of_ascii p.text p.ascii_text
  · intro fs fs' cwd o hplan hwrite
    rw [← hplan]
    exact Generation.read_of_writePlan fs fs' cwd o hwrite

/-- A plan with a quote, a backslash, control characters, and a character beyond the
    basic plane in its names. -/
def ServicePlan.oddNames : ServicePlan where
  service := ⟨"\"A\\", some "a\x00\n", []⟩
  endpoints := [⟨⟨"😀", [], none, none, "G\tT", "/\x7f\\u0041"⟩,
    [⟨⟨"é", .query "\uFEFF", .list (.primitive .string)⟩, .query, some "\uFEFF",
      .repeated .string .list, true, false⟩,
      ⟨⟨"b", .body, .reference ⟨"T", "\u2028"⟩⟩, .body, none,
        .body "😀" (.reference ⟨"T", "\u2028"⟩), false, false⟩], ⟨"", none⟩⟩,
    ⟨⟨"", [], none, none, "", ""⟩, [], ⟨"\r", some (.primitive .double)⟩⟩]

/-- The plan is written into a directory that does not exist yet. -/
theorem ServicePlan.file_reads_back_of_oddNames :
    ∃ fs : FileSystem, Generation.writePlan ⟨[]⟩ "/".toList
        ⟨"/out/A".toList, "/a.conjure.json".toList, oddNames⟩ = (fs, none) ∧
      fs.read "/".toList "/out/A.plan.json".toList = .ok oddNames.bytes ∧
      ∃ text, Utf8.decode oddNames.bytes = .ok text ∧ Json.read text = .ok oddNames.toJson := by
  have hwrite : (Generation.writePlan ⟨[]⟩ "/".toList
      ⟨"/out/A".toList, "/a.conjure.json".toList, oddNames⟩).2 = none := by
    decide +kernel
  rcases oddNames.file_reads_back with ⟨⟨-, -, text, hdecode, -, hread⟩, hfile⟩
  refine ⟨_, Prod.ext rfl hwrite, ?_, text, hdecode, hread⟩
  -- It is the plan of an output that was written without a fault.
  exact hfile _ _ _ ⟨"/out/A".toList, "/a.conjure.json".toList, oddNames⟩ rfl (Prod.ext rfl hwrite)

end ClientPlan
