import ClientPlan.Json.Basic
import ClientPlan.Number.Shortest
import ClientPlan.Text.Hex
import ClientPlan.Text.Quoted

/-!
# Writing JSON

Two ways to write a value: as a JSON text, and as it is shown in a message.

The JSON text puts every item and every entry on a line of its own, two spaces
further in than the bracket that opened it, and holds printable ASCII and line
feeds only: any other character of a string is escaped, one beyond the basic
plane as the pair of its surrogates. Nothing is lost, and a text of this form is
read the same whatever encoding a reader assumes.

In a message a string stands as it is, if it is text, and inside an array or an
object it is quoted; a missing value is `None` there and the truth values have capitals.

## Main definitions

* `Json.quote`: A string as it stands in a JSON text.
* `Json.render`: A value as a JSON text.
* `Json.display`: A value as it is shown in a message.
-/

namespace ClientPlan

namespace Json

/-- The escape of a UTF-16 unit. -/
def escapeUnit (n : Nat) : List Char :=
  '\\' :: 'u' :: Text.hexDigits 4 n

/-- One character as it stands in a JSON string. -/
def escapeChar (c : Char) : List Char :=
  if c = '"' then ['\\', '"']
  else if c = '\\' then ['\\', '\\']
  else if c = '\n' then ['\\', 'n']
  else if c = '\r' then ['\\', 'r']
  else if c = '\t' then ['\\', 't']
  else if c.toNat = 8 then ['\\', 'b']
  else if c.toNat = 12 then ['\\', 'f']
  else if 32 ≤ c.toNat ∧ c.toNat ≤ 126 then [c]
  else if c.toNat < 0x10000 then escapeUnit c.toNat
  else escapeUnit (Surrogate.high c.toNat) ++ escapeUnit (Surrogate.low c.toNat)

/-- One character or surrogate as it stands in a JSON string. -/
def escapeCode (n : Nat) : List Char :=
  if Surrogate.isSurrogate n then escapeUnit n else escapeChar (Char.ofNat n)

/-- A string as it stands between the quotes of a JSON text. -/
def escape : Str → List Char
  | .text value => value.toList.flatMap escapeChar
  | .broken codes => codes.flatMap escapeCode

/-- A string as it stands in a JSON text, quotes included. -/
def quote (s : Str) : List Char :=
  '"' :: (escape s ++ ['"'])

/-- The text of a number with a fraction or an exponent. The numbers that are
    not finite have names of their own. -/
def floatText : Binary64 → String
  | .nan => "NaN"
  | .infinity negative => if negative then "-Infinity" else "Infinity"
  | x => x.text

/-- The start of a new line at the given depth. -/
def newline (depth : Nat) : List Char :=
  '\n' :: List.replicate (2 * depth) ' '

mutual

/-- A value as a JSON text. The lines inside it are indented by twice the given
    depth and more. -/
def renderAt (depth : Nat) : Json → List Char
  | .null => ['n', 'u', 'l', 'l']
  | .bool true => ['t', 'r', 'u', 'e']
  | .bool false => ['f', 'a', 'l', 's', 'e']
  | .int n => (toString n).toList
  | .float x => (floatText x).toList
  | .str s => quote s
  | .arr [] => ['[', ']']
  | .arr (item :: items) =>
    '[' :: (newline (depth + 1) ++ renderAt (depth + 1) item ++ renderItems (depth + 1) items ++
      newline depth ++ [']'])
  | .obj [] => ['\x7b', '\x7d']
  | .obj (entry :: entries) =>
    '\x7b' :: (newline (depth + 1) ++ renderEntry (depth + 1) entry ++
      renderEntries (depth + 1) entries ++ newline depth ++ ['\x7d'])

/-- The further items of an array, each after a comma. -/
def renderItems (depth : Nat) : List Json → List Char
  | [] => []
  | item :: items => ',' :: (newline depth ++ renderAt depth item ++ renderItems depth items)

/-- The further entries of an object, each after a comma. -/
def renderEntries (depth : Nat) : List (Str × Json) → List Char
  | [] => []
  | entry :: entries =>
    ',' :: (newline depth ++ renderEntry depth entry ++ renderEntries depth entries)

/-- One entry of an object. -/
def renderEntry (depth : Nat) : Str × Json → List Char
  | (name, value) => quote name ++ ':' :: ' ' :: renderAt depth value

end

/-- A value as a JSON text. -/
def render (value : Json) : List Char :=
  renderAt 0 value

/-- A string as it is shown inside an array or an object of a message. -/
def displayStr : Str → String
  | .text value => Text.quoted value
  | .broken codes => Text.quotedCodes codes

mutual

/-- A value as it is shown inside an array or an object of a message. -/
def displayInner : Json → String
  | .null => "None"
  | .bool true => "True"
  | .bool false => "False"
  | .int n => toString n
  | .float x => x.text
  | .str s => displayStr s
  | .arr items => "[" ++ ", ".intercalate (displayItems items) ++ "]"
  | .obj entries => "\x7b" ++ ", ".intercalate (displayEntries entries) ++ "\x7d"

/-- The items of an array as they are shown in a message. -/
def displayItems : List Json → List String
  | [] => []
  | item :: items => displayInner item :: displayItems items

/-- The entries of an object as they are shown in a message. -/
def displayEntries : List (Str × Json) → List String
  | [] => []
  | entry :: entries => displayEntry entry :: displayEntries entries

/-- One entry of an object as it is shown in a message. -/
def displayEntry : Str × Json → String
  | (name, value) => displayStr name ++ ": " ++ displayInner value

end

/-- A value as it is shown in a message. A string stands there as it is,
    if it is text. -/
def display : Json → String
  | .str s => s.shown
  | value => displayInner value

end Json

end ClientPlan
