import ClientPlan.Text.Hex
import ClientPlan.Text.Printable
import ClientPlan.Text.Surrogate

/-!
# Quoted Text

The form in which a text is shown inside a message: between quotes, with an
escape for every character that would not show.

The quotes are single ones unless the text holds a single quote and no double
one, so most texts need no escaped quote. Whichever quote is chosen is escaped
inside, and so is the backslash. The tab, the line feed and the carriage return
have escapes of their own; any other character that is not printable is written
with its number, in two, four or eight hexadecimal digits, whichever is enough.
So is a surrogate that stands alone.

## Main definitions

* `quoteFor`: The quote that a text is shown between.
* `escapeChar`: One character as it stands between quotes.
* `quoted`: A text as it stands in a message.
* `quotedCodes`: Characters and surrogates as they stand in a message.
* `quotedList`: Texts as a bracketed list.
-/

namespace ClientPlan

namespace Text

/-- The quote that a text is shown between. -/
def quoteFor (text : List Char) : Char :=
  if text.contains '\'' && !text.contains '"' then '"' else '\''

/-- One character as it stands between the given quotes. -/
def escapeChar (quote c : Char) : List Char :=
  if c = quote ∨ c = '\\' then ['\\', c]
  else if c = '\t' then ['\\', 't']
  else if c = '\n' then ['\\', 'n']
  else if c = '\r' then ['\\', 'r']
  else if isPrintable c then [c]
  else if c.toNat < 0x100 then '\\' :: 'x' :: hexDigits 2 c.toNat
  else if c.toNat < 0x10000 then '\\' :: 'u' :: hexDigits 4 c.toNat
  else '\\' :: 'U' :: hexDigits 8 c.toNat

/-- A text as it stands in a message, quotes included. -/
def quoted (text : String) : String :=
  let quote := quoteFor text.toList
  String.ofList (quote :: (text.toList.flatMap (escapeChar quote) ++ [quote]))

/-- One character or surrogate as it stands between the given quotes. -/
def escapeCode (quote : Char) (n : Nat) : List Char :=
  if Surrogate.isSurrogate n then '\\' :: 'u' :: hexDigits 4 n
  else escapeChar quote (Char.ofNat n)

/-- Characters and surrogates as they stand in a message, quotes included. -/
def quotedCodes (codes : List Nat) : String :=
  let quote := quoteFor (codes.map Char.ofNat)
  String.ofList (quote :: (codes.flatMap (escapeCode quote) ++ [quote]))

/-- Texts as a bracketed list, each of them quoted. -/
def quotedList (texts : List String) : String :=
  "[" ++ ", ".intercalate (texts.map quoted) ++ "]"

end Text

end ClientPlan
