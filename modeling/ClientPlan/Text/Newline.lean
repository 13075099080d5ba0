/-!
# Line Ends

Texts with one kind of line end.

## Main definitions

* `unifyNewlines`: A text in which every line ends in a line feed.
-/

namespace ClientPlan

namespace Text

/-- A text in which every line ends in a line feed. A carriage return ends a
    line, on its own or with a line feed behind it. -/
def unifyNewlines : List Char → List Char
  | [] => []
  | '\r' :: '\n' :: text => '\n' :: unifyNewlines text
  | '\r' :: text => '\n' :: unifyNewlines text
  | c :: text => c :: unifyNewlines text

end Text

end ClientPlan
