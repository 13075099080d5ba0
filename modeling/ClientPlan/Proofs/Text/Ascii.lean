import ClientPlan.Text.Newline
import ClientPlan.Text.Utf8

/-!
# ASCII Text

What does not happen to a text of printable ASCII characters and line feeds.

Each of its characters is one byte, and that byte is the number of the character. So
there is nothing to join when the bytes are decoded and no sequence that stands for no
character, and since no line ends in a carriage return, its line ends are left alone.

## Main definitions

* `IsAscii`: A printable ASCII character, or a line feed.

## Theorems

* `encode_of_ascii`: The bytes are the numbers of the characters.
* `decode_encode_of_ascii`: The bytes of the text are decoded to the text.
* `unifyNewlines_of_ascii`: The line ends of the text are unified already.
-/

namespace ClientPlan

namespace Text

/-- A printable ASCII character, or a line feed. -/
def IsAscii (c : Char) : Prop :=
  c = '\n' ∨ (32 ≤ c.toNat ∧ c.toNat ≤ 126)

instance : DecidablePred IsAscii :=
  fun c => inferInstanceAs (Decidable (c = '\n' ∨ (32 ≤ c.toNat ∧ c.toNat ≤ 126)))

theorem IsAscii.toNat_lt {c : Char} (h : IsAscii c) : c.toNat < 128 := by
  rcases h with rfl | ⟨-, hle⟩
  · decide
  · omega

theorem IsAscii.ne_carriageReturn {c : Char} (h : IsAscii c) : c ≠ '\r' := by
  rintro rfl
  rcases h with h | ⟨hle, -⟩
  · exact absurd h (by decide)
  · exact absurd hle (by decide)

theorem unifyNewlines_of_ascii (text : List Char) (h : ∀ c ∈ text, IsAscii c) :
    unifyNewlines text = text := by
  induction text with
  | nil => rfl
  | cons c text ih =>
      rw [List.forall_mem_cons] at h
      -- Only a carriage return would be replaced.
      have hne : c ≠ '\r' := h.1.ne_carriageReturn
      rw [unifyNewlines, ih h.2]
      · exact fun _ heq => absurd heq hne
      · exact hne

end Text

namespace Utf8

open Text (IsAscii)

theorem utf8EncodeChar_of_ascii (c : Char) (h : c.toNat < 128) :
    String.utf8EncodeChar c = [UInt8.ofNat c.toNat] := by
  -- The first of the four lengths of an encoding is a single byte.
  have hle : c.val.toNat ≤ 127 := Nat.lt_succ_iff.1 h
  simp only [String.utf8EncodeChar, if_pos hle]
  exact rfl

theorem encode_of_ascii (text : List Char) (h : ∀ c ∈ text, IsAscii c) :
    encode text = text.map fun c => UInt8.ofNat c.toNat := by
  induction text with
  | nil => rfl
  | cons c text ih =>
      rw [List.forall_mem_cons] at h
      rw [encode, List.flatMap_cons, utf8EncodeChar_of_ascii c h.1.toNat_lt, ← encode, ih h.2,
        List.map_cons, List.singleton_append]

/-- A byte below 128 opens no character, it is one. -/
theorem decodeFrom_ofNat (offset : Nat) (c : Char) (bytes : List UInt8) (h : c.toNat < 128) :
    decodeFrom offset none (UInt8.ofNat c.toNat :: bytes) =
      (c :: ·) <$> decodeFrom (offset + 1) none bytes := by
  have htoNat : (UInt8.ofNat c.toNat).toNat = c.toNat := by
    rw [UInt8.toNat_ofNat']
    omega
  have hlead : continuations c.toNat = some [] := by rw [continuations, if_pos h]
  rw [decodeFrom, htoNat, hlead]
  simp only [Char.ofNat_toNat]

theorem decodeFrom_of_ascii (text : List Char) (h : ∀ c ∈ text, IsAscii c) :
    ∀ offset, decodeFrom offset none (text.map fun c => UInt8.ofNat c.toNat) = .ok text := by
  -- By induction on the text, wherever its bytes begin.
  induction text with
  | nil =>
      intro offset
      rw [List.map_nil, decodeFrom]
  | cons c text ih =>
      intro offset
      rw [List.forall_mem_cons] at h
      rw [List.map_cons, decodeFrom_ofNat offset c _ h.1.toNat_lt, ih h.2]
      rfl

/-- The bytes of an ASCII text are decoded to that text. -/
theorem decode_encode_of_ascii (text : List Char) (h : ∀ c ∈ text, IsAscii c) :
    decode (encode text) = .ok text := by
  rw [encode_of_ascii text h]
  exact decodeFrom_of_ascii text h 0

theorem lt_of_mem_encode_of_ascii (text : List Char) (h : ∀ c ∈ text, IsAscii c) :
    ∀ b ∈ encode text, b.toNat < 128 := by
  rw [encode_of_ascii text h]
  intro b hb
  rcases List.mem_map.1 hb with ⟨c, hc, rfl⟩
  have hlt := (h c hc).toNat_lt
  rw [UInt8.toNat_ofNat']
  omega

end Utf8

end ClientPlan
