import ClientPlan.Path.Basic

/-!
# Name Patterns

Patterns for the names of files.

A star stands for any characters, a question mark for one, and brackets for one
of the characters between them, or, behind an exclamation mark, for one of all
others. In brackets a hyphen between two characters is a range, a closing
bracket in the first place is a character like any other, and a range whose ends
are the wrong way around is dropped together with its ends. A bracket that is
not closed stands for itself. There are no escapes.

## Main definitions

* `Glob.Piece`: What a part of a pattern stands for.
* `Glob.pieces`: The parts of a pattern.
* `Glob.consistsOf`: Whether a text consists of what some pieces stand for.
* `Glob.fits`: Whether a pattern stands for a name.
* `Glob.isPattern`: Whether a text holds a wildcard at all.

## Theorems

* `Glob.endsFit_nil`, `Glob.endsFit_cons`: The marks of the ends of a text.
* `Glob.fits_eq_consistsOf`: A pattern stands for the names that consist of what
  its pieces stand for.
-/

namespace ClientPlan

namespace Glob

/-- The characters between brackets. -/
structure CharSet where
  /-- Whether all other characters are meant. -/
  negated : Bool
  single : List Char
  ranges : List (Char × Char)
  deriving DecidableEq, Repr

/-- Whether a set holds a character. -/
def CharSet.holds (s : CharSet) (c : Char) : Bool :=
  let listed :=
    s.single.contains c || s.ranges.any fun r => r.1.toNat ≤ c.toNat && c.toNat ≤ r.2.toNat
  listed != s.negated

/-- What a part of a pattern stands for. -/
inductive Piece where
  /-- Any characters. -/
  | many
  /-- One character, whichever it is. -/
  | any
  | exactly (c : Char)
  | oneOf (set : CharSet)
  deriving DecidableEq, Repr

/-- Whether a piece holds a character. -/
def Piece.holds : Piece → Char → Bool
  | .many, _ => true
  | .any, _ => true
  | .exactly x, c => c == x
  | .oneOf set, c => set.holds c

/-- Whether some end of a text satisfies a test, the whole text and the empty one
    included. -/
def someEnd (test : List Char → Bool) : List Char → Bool
  | [] => test []
  | c :: text => test (c :: text) || someEnd test text

/-- Whether a text consists of what some pieces stand for. -/
def consistsOf : List Piece → List Char → Bool
  | [], text => text.isEmpty
  | .many :: pieces, text => someEnd (consistsOf pieces) text
  | _ :: _, [] => false
  | piece :: pieces, c :: text => piece.holds c && consistsOf pieces text

/-- Whether a mark is set at each place or behind it. -/
def orLater : List Bool → List Bool
  | [] => []
  | mark :: marks =>
    let later := orLater marks
    (mark || later.headD false) :: later

/-- Whether, at each place in a text, a character that a piece holds is followed
    by a mark. -/
def beforeMark (piece : Piece) : List Char → List Bool → List Bool
  | [], _ => [false]
  | c :: text, marks =>
    (piece.holds c && marks.tail.headD false) :: beforeMark piece text marks.tail

/-- Whether each end of a text, from the whole text to the empty one, consists of
    what some pieces stand for. -/
def endsFit : List Piece → List Char → List Bool
  | [], text => text.map (fun _ => false) ++ [true]
  | .many :: pieces, text => orLater (endsFit pieces text)
  | piece :: pieces, text => beforeMark piece text (endsFit pieces text)

/-- The characters between brackets, cut at each hyphen that has characters on
    both sides. A part between two hyphens has two characters at least, since
    one would be the end of one range and the beginning of the next. `least` is
    the number of characters that have to come before the next cut. -/
def cut : Nat → List Char → List (List Char)
  | _, [] => [[]]
  | least, c :: text =>
    if c = '-' ∧ least = 0 then [] :: cut 2 text
    else
      match cut (least - 1) text with
      | [] => [[c]]
      | part :: parts => (c :: part) :: parts

/-- The parts between the cuts. A hyphen in the last place cuts nothing off. -/
def joinLast : List (List Char) → List (List Char)
  | [] => []
  | [part] => [part]
  | [part, []] => [part ++ ['-']]
  | part :: parts => part :: joinLast parts

/-- The parts without the ranges whose ends are the wrong way around. -/
def dropBackward : List (List Char) → List (List Char)
  | [] => []
  | part :: parts =>
    match dropBackward parts with
    | [] => [part]
    | next :: rest =>
      match part.getLast?, next with
      | some low, high :: after =>
        -- The two parts become one, without the ends of the range between them.
        if high.toNat < low.toNat then (part.dropLast ++ after) :: rest
        else part :: next :: rest
      | _, _ => part :: next :: rest

/-- The ranges between parts: each one leads from the last character of a part
    to the first of the next. -/
def rangesOf : List (List Char) → List (Char × Char)
  | part :: next :: parts =>
    match part.getLast?, next.head? with
    | some low, some high => (low, high) :: rangesOf (next :: parts)
    | _, _ => rangesOf (next :: parts)
  | _ => []

/-- The set of some parts. -/
def setOf (negated : Bool) (parts : List (List Char)) : CharSet :=
  ⟨negated, parts.flatten, rangesOf parts⟩

/-- The parts behind the mark that negates a set. Without any character between
    the mark and a hyphen, the hyphen is one of the set. -/
def afterMark : List (List Char) → List (List Char)
  | [] :: next :: parts => ('-' :: next) :: parts
  | parts => parts

/-- What the characters between brackets stand for. -/
def bracket (inner : List Char) : Piece :=
  let least := if inner.head? = some '!' then 2 else 1
  match dropBackward (joinLast (cut least inner)) with
  | [] => .oneOf ⟨false, [], []⟩
  -- All ranges behind the mark were dropped, so nothing is left to exclude.
  | ['!'] :: [] => .any
  | ('!' :: part) :: parts => .oneOf (setOf true (afterMark (part :: parts)))
  | parts => .oneOf (setOf false parts)

/-- The characters up to a closing bracket, and what follows it. -/
def upToBracket : List Char → Option (List Char × List Char)
  | [] => none
  | ']' :: rest => some ([], rest)
  | c :: rest => (upToBracket rest).map fun (inner, after) => (c :: inner, after)

/-- The characters between brackets, from behind the opening one, and what
    follows the closing one. It cannot be the first character, nor the first
    behind the mark that negates. -/
def closed? : List Char → Option (List Char × List Char)
  | '!' :: c :: rest => (upToBracket rest).map fun (inner, after) => ('!' :: c :: inner, after)
  | c :: rest =>
    if c = '!' then none
    else (upToBracket rest).map fun (inner, after) => (c :: inner, after)
  | [] => none

/-- The parts of a pattern, read with at most `fuel` steps. Each step takes at
    least one character. -/
def piecesWithin : Nat → List Char → List Piece
  | 0, _ => []
  | _, [] => []
  | fuel + 1, c :: text =>
    if c = '*' then .many :: piecesWithin fuel text
    else if c = '?' then .any :: piecesWithin fuel text
    else if c = '[' then
      match closed? text with
      | some (inner, after) => bracket inner :: piecesWithin fuel after
      -- Only the bracket stands for itself, and what follows is read as usual.
      | none => .exactly '[' :: piecesWithin fuel text
    else .exactly c :: piecesWithin fuel text

/-- The parts of a pattern. -/
def pieces (pattern : List Char) : List Piece :=
  piecesWithin pattern.length pattern

/-- Whether a pattern stands for a name. The marks of all ends are found piece by
    piece, so a name is read once for each piece, however many stars there are. -/
def fits (pattern name : List Char) : Bool :=
  (endsFit (pieces pattern) name).headD false

/-- Whether a text holds a wildcard. -/
def isPattern (text : List Char) : Bool :=
  text.any fun c => c == '*' || c == '?' || c == '['

theorem endsFit_nil (ps : List Piece) : endsFit ps [] = [consistsOf ps []] := by
  induction ps with
  | nil => rfl
  | cons p ps ih =>
      cases p with
      | many => simp only [endsFit, ih, orLater, consistsOf, someEnd, List.headD_nil, Bool.or_false]
      | _ => rfl

/-- The marks of the ends of a longer text are those of the text behind its first
    character, with one for the whole in front. -/
theorem endsFit_cons (ps : List Piece) (c : Char) (text : List Char) :
    endsFit ps (c :: text) = consistsOf ps (c :: text) :: endsFit ps text := by
  induction ps generalizing c text with
  | nil => rfl
  | cons p ps ih =>
      -- The first mark is that of the whole text, for the further pieces too.
      have hwhole (t : List Char) : (endsFit ps t).headD false = consistsOf ps t := by
        cases t with
        | nil => rw [endsFit_nil, List.headD_cons]
        | cons d t => rw [ih, List.headD_cons]
      have hlater (t : List Char) :
          (orLater (endsFit ps t)).headD false = someEnd (consistsOf ps) t := by
        induction t with
        | nil => simp only [endsFit_nil, orLater, someEnd, List.headD_nil, List.headD_cons,
            Bool.or_false]
        | cons d t iht => rw [ih, someEnd, ← iht]; rfl
      cases p with
      | many => simp only [endsFit, consistsOf, ih, orLater, someEnd, hlater]
      | _ => simp only [endsFit, consistsOf, beforeMark, ih, hwhole, List.tail_cons]

theorem fits_eq_consistsOf (pattern name : List Char) :
    fits pattern name = consistsOf (pieces pattern) name := by
  cases name with
  | nil => rw [fits, endsFit_nil, List.headD_cons]
  | cons c name => rw [fits, endsFit_cons, List.headD_cons]

end Glob

end ClientPlan
