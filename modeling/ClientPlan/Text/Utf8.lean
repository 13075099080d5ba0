import ClientPlan.Text.Hex

/-!
# UTF-8 Text

Strict decoding of bytes into text, with an account of the first byte sequence
that stands for no character.

A character of more than one byte starts with a lead byte, and the lead byte
fixes how many bytes follow and which range the first of them may come from:
the narrower ranges after `E0`, `ED`, `F0` and `F4` keep out overlong forms,
surrogates and values above `10FFFF`. `decode` reads the bytes one at a time
and remembers the character that is still open, so it is a recursion on the
bytes themselves. A sequence that breaks off is reported from its lead byte to
the last byte that still fitted.

## Main definitions

* `Utf8.encode`: The bytes of a text.
* `Utf8.decode`: The text of some bytes, or the first sequence that is none.
* `Utf8.Fault`: A byte sequence that stands for no character.
* `Utf8.Fault.message`: The wording of such a report.
-/

namespace ClientPlan

namespace Utf8

/-- The reason why a byte sequence stands for no character. -/
inductive Reason where
  /-- No character starts with this byte. -/
  | invalidStart
  /-- The input ends inside a character. -/
  | unexpectedEnd
  /-- A character is open and the next byte does not continue it. -/
  | invalidContinuation
  deriving DecidableEq, Repr

/-- A byte sequence that stands for no character. -/
structure Fault where
  /-- The offset of the lead byte. -/
  start : Nat
  /-- The lead byte. -/
  lead : UInt8
  /-- How many bytes the sequence has, the lead byte included. -/
  length : Nat
  /-- Why it stands for no character. -/
  reason : Reason
  deriving DecidableEq, Repr

/-- A range of byte values, both ends included. -/
abbrev Range := Nat × Nat

/-- The range of a continuation byte that no lead byte narrows. -/
def fullRange : Range := (0x80, 0xBF)

/-- The ranges of the continuation bytes that a lead byte asks for, in order,
    or `none` if no character starts with the byte. -/
def continuations (lead : Nat) : Option (List Range) :=
  if lead < 0x80 then some []
  else if lead < 0xC2 then none
  else if lead < 0xE0 then some [fullRange]
  else if lead < 0xF0 then
    some [(if lead = 0xE0 then 0xA0 else 0x80, if lead = 0xED then 0x9F else 0xBF), fullRange]
  else if lead < 0xF5 then
    some [(if lead = 0xF0 then 0x90 else 0x80, if lead = 0xF4 then 0x8F else 0xBF), fullRange,
      fullRange]
  else none

/-- The part of the character's number that the lead byte holds. -/
def payload (lead : Nat) : Nat :=
  if lead < 0x80 then lead
  else if lead < 0xE0 then lead - 0xC0
  else if lead < 0xF0 then lead - 0xE0
  else lead - 0xF0

/-- A character that is still open: where it started, with which byte, how
    many bytes it has so far, the number they spell and the ranges that the
    bytes still missing have to come from. -/
structure Pending where
  start : Nat
  lead : UInt8
  length : Nat
  value : Nat
  next : Range
  missing : List Range

/-- The report on a character that was left open. -/
def Pending.fault (p : Pending) (reason : Reason) : Fault :=
  ⟨p.start, p.lead, p.length, reason⟩

/-- Decode from the given offset on, with the character that is still open, if
    there is one. -/
def decodeFrom : Nat → Option Pending → List UInt8 → Except Fault (List Char)
  | _, none, [] => .ok []
  | _, some p, [] => .error (p.fault .unexpectedEnd)
  | offset, none, b :: bytes =>
    match continuations b.toNat with
    | none => .error ⟨offset, b, 1, .invalidStart⟩
    | some [] => (Char.ofNat b.toNat :: ·) <$> decodeFrom (offset + 1) none bytes
    | some (next :: missing) =>
      decodeFrom (offset + 1) (some ⟨offset, b, 1, payload b.toNat, next, missing⟩) bytes
  | offset, some p, b :: bytes =>
    if p.next.1 ≤ b.toNat ∧ b.toNat ≤ p.next.2 then
      let value := p.value * 64 + (b.toNat - 0x80)
      match p.missing with
      | [] => (Char.ofNat value :: ·) <$> decodeFrom (offset + 1) none bytes
      | next :: missing =>
        decodeFrom (offset + 1)
          (some ⟨p.start, p.lead, p.length + 1, value, next, missing⟩) bytes
    else .error (p.fault .invalidContinuation)

/-- The text of some bytes, or the first sequence that stands for no
    character. -/
def decode (bytes : List UInt8) : Except Fault (List Char) :=
  decodeFrom 0 none bytes

/-- The bytes of a text. -/
def encode (text : List Char) : List UInt8 :=
  text.flatMap String.utf8EncodeChar

/-- The wording of a reason. -/
def Reason.message : Reason → String
  | .invalidStart => "invalid start byte"
  | .unexpectedEnd => "unexpected end of data"
  | .invalidContinuation => "invalid continuation byte"

/-- The wording of a report. A sequence of one byte is shown with its value, a
    longer one with the offsets of its first and last byte. -/
def Fault.message (f : Fault) : String :=
  let place :=
    if f.length ≤ 1 then
      "byte 0x" ++ String.ofList (Text.hexDigits 2 f.lead.toNat) ++ " in position " ++
        toString f.start
    else
      "bytes in position " ++ toString f.start ++ "-" ++ toString (f.start + f.length - 1)
  "'utf-8' codec can't decode " ++ place ++ ": " ++ f.reason.message

end Utf8

end ClientPlan
