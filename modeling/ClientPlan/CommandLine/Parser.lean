import ClientPlan.CommandLine.Options
import ClientPlan.Text.Digit
import ClientPlan.Text.Quoted

/-!
# Reading the Command Line

The settings that the words of a command line ask for.

Each word is first classified on its own, whatever stands around it. A word is
an option if it starts with a hyphen and spells one: in full, by the beginning
of a full spelling that no other option shares, or by a letter. A value may be
attached to it, behind an equals sign or directly behind the letter; behind the
letter of an option that takes no value, further letters may follow. A word that
starts with a hyphen and spells no option is still a value if it looks like a
negative number or holds a space. The word `--` ends the options.

The words are then consumed from left to right, each option together with the
values that follow it, up to the next option; it takes them unless a value is
attached. What no option takes is collected and refused at the end, so a request
for help or a fault that comes first is answered first.

What a text attached to an option stands for is said by the rules of release 3.11.8.
From 3.11.10 and 3.12.3 on an equals sign behind several letters, such as in `-ro=x`,
belongs to no value, `--` is a value where it is attached, as in `-c--` and
`--output-dir=--`, and of `-vx` or `-h1` the first letter is carried out and only the
rest is unrecognized.

## Main definitions

* `CommandLine.Word`: A classified word.
* `CommandLine.Stop`: Why no run follows: a request for help or a fault.
* `CommandLine.classify`: The classification of a word.
* `CommandLine.runs`: Each option with the values behind it.
* `CommandLine.consume`: The settings that some options ask for.
* `CommandLine.parse`: The settings that a command line asks for.
-/

namespace ClientPlan

namespace CommandLine

/-- What is wrong with a command line. -/
inductive Fault where
  | ambiguous (word : String) (candidates : List Flag)
  | missingValue (flag : Flag)
  /-- A value is attached to an option that takes none. -/
  | needlessValue (flag : Flag) (value : String)
  | unrecognized (words : List String)
  deriving DecidableEq, Repr

/-- The wording of a fault. -/
def Fault.message : Fault → String
  | ambiguous word candidates =>
    "ambiguous option: " ++ word ++ " could match " ++
      ", ".intercalate (candidates.map Flag.long)
  | missingValue flag =>
    "argument " ++ flag.title ++ ": " ++
      if flag.arity = .many then "expected at least one argument" else "expected one argument"
  | needlessValue flag value =>
    "argument " ++ flag.title ++ ": ignored explicit argument " ++ Text.quoted value
  | unrecognized words => "unrecognized arguments: " ++ " ".intercalate words

/-- Why no run follows. -/
inductive Stop where
  | help
  | fault (fault : Fault)
  deriving DecidableEq, Repr

/-- A classified word. -/
inductive Word where
  | value (text : String)
  /-- An option in its full spelling or a part of it. -/
  | long (flag : Flag) (attached : Option String)
  /-- An option by its letter. -/
  | short (flag : Flag) (attached : Option String)
  /-- A word that spells no option but is no value either. -/
  | unknown (text : String)
  deriving DecidableEq, Repr

/-- A word up to its first equals sign, and what follows the sign. -/
def splitEquals (word : List Char) : List Char × Option (List Char) :=
  match word.dropWhile (· != '=') with
  | [] => (word, none)
  | _ :: value => (word.takeWhile (· != '='), some value)

/-- Whether some characters are digits, one of them at least. -/
def isDigits (text : List Char) : Bool :=
  !text.isEmpty && text.all Text.isDecimalDigit

/-- Whether what follows a hyphen makes a negative number of it. A line feed at
    the end does no harm. -/
def isMagnitude (text : List Char) : Bool :=
  let body := if text.getLast? = some '\n' then text.dropLast else text
  match body.dropWhile Text.isDecimalDigit with
  | '.' :: fraction => isDigits fraction
  | rest => rest.isEmpty && isDigits body

/-- The classification of a word that starts with a hyphen and spells no
    option. -/
def classifyRest (word : List Char) : Word :=
  if isMagnitude (word.drop 1) ∨ ' ' ∈ word then .value (String.ofList word)
  else .unknown (String.ofList word)

/-- The options whose full spelling starts with some characters. -/
def startingWith (beginning : List Char) : List Flag :=
  Flag.all.filter fun flag => beginning.isPrefixOf flag.long.toList

/-- The classification of a word that starts with two hyphens. A full spelling
    counts even if it is the beginning of another one. -/
def classifyLong (word : List Char) : Except Fault Word :=
  let (name, attached) := splitEquals word
  let attached := attached.map String.ofList
  match Flag.all.find? fun flag => flag.long.toList = name with
  | some flag => .ok (.long flag attached)
  | none =>
    match startingWith name with
    | [] => .ok (classifyRest word)
    | [flag] => .ok (.long flag attached)
    | flags => .error (.ambiguous (String.ofList word) flags)

/-- The classification of a word that starts with a hyphen and another
    character. An equals sign directly behind the letter belongs to no value, and one
    behind several letters does, as in release 3.11.8. -/
def classifyShort (c : Char) (rest : List Char) : Word :=
  match Flag.ofLetter? c with
  | none => classifyRest ('-' :: c :: rest)
  | some flag =>
    match rest with
    | [] => .short flag none
    -- The sign is dropped directly behind the letter only.
    | '=' :: value => .short flag (some (String.ofList value))
    | value => .short flag (some (String.ofList value))

/-- The classification of a word. -/
def classify (word : String) : Except Fault Word :=
  match word.toList with
  | '-' :: '-' :: rest => classifyLong ('-' :: '-' :: rest)
  | '-' :: c :: rest => .ok (classifyShort c rest)
  | _ => .ok (.value word)

/-- The word that ends the options. -/
def endOfOptions : String := "--"

/-- The words before the end of the options, classified, and the others with the
    word that ends the options. -/
def classifyAll : List String → Except Fault (List Word × List String)
  | [] => .ok ([], [])
  | word :: words =>
    if word = endOfOptions then .ok ([], word :: words)
    else
      match classify word with
      | .error fault => .error fault
      | .ok w =>
        match classifyAll words with
        | .error fault => .error fault
        | .ok (ws, rest) => .ok (w :: ws, rest)

/-- The values of an option that an attached text stands for. The end of the
    options, attached to an option, is none, as in release 3.11.8. -/
def attachedValues (text : String) : List String :=
  if text = endOfOptions then [] else [text]

/-- The values at the beginning of some words, and each other word with the
    values behind it. -/
def runs : List Word → List String × List (Word × List String)
  | [] => ([], [])
  | .value text :: words => (text :: (runs words).1, (runs words).2)
  | word :: words => ([], (word, (runs words).1) :: (runs words).2)

/-- What an option by its letter and the text attached to it ask for: options
    without a value, and then one that has a value attached or takes those that
    follow. -/
structure Cluster where
  plain : List Flag
  last : Flag
  attached : Option String

/-- What a letter and the text attached to it ask for. -/
def cluster (flag : Flag) : List Char → Except Fault Cluster
  | [] =>
    if flag.arity = .zero then .error (.needlessValue flag "")
    else .ok ⟨[], flag, some ""⟩
  | c :: rest =>
    if flag.arity = .zero then
      match Flag.ofLetter? c with
      | none => .error (.needlessValue flag (String.ofList (c :: rest)))
      | some next =>
        -- The last letter takes the values that follow the word.
        if rest = [] then .ok ⟨[flag], next, none⟩
        else
          (cluster next rest).map fun found => { found with plain := flag :: found.plain }
    else .ok ⟨[], flag, some (String.ofList (c :: rest))⟩

/-- The settings after some options without a value, in order. -/
def turnOnAll (o : Options) : List Flag → Except Stop Options
  | [] => .ok o
  | flag :: flags => if flag = .help then .error .help else turnOnAll (o.turnOn flag) flags

/-- The settings after an option that takes the values behind it, if any, and the
    values that are left. -/
def take (o : Options) (flag : Flag) (values : List String) :
    Except Stop (Options × List String) :=
  match flag.arity, values with
  | .zero, values => (turnOnAll o [flag]).map fun o => (o, values)
  | _, [] => .error (.fault (.missingValue flag))
  | .one, value :: rest => .ok (o.assign [value] flag, rest)
  | .many, values => .ok (o.assign values flag, [])

/-- The settings after an option with a text attached to it. -/
def takeAttached (o : Options) (flag : Flag) (text : String) : Except Stop Options :=
  if flag.arity = .zero then .error (.fault (.needlessValue flag text))
  else .ok (o.assign (attachedValues text) flag)

/-- The settings after an option, and the values behind it that are left. -/
def takeEither (o : Options) (flag : Flag) (attached : Option String) (values : List String) :
    Except Stop (Options × List String) :=
  match attached with
  | none => take o flag values
  | some text => (takeAttached o flag text).map fun o => (o, values)

/-- The settings after the options that letters in one word ask for. That the
    last one has its values is checked before any of them takes effect. -/
def takeCluster (o : Options) (found : Cluster) (values : List String) :
    Except Stop (Options × List String) :=
  if found.attached = none ∧ found.last.arity ≠ .zero ∧ values = [] then
    .error (.fault (.missingValue found.last))
  else
    match turnOnAll o found.plain with
    | .error stop => .error stop
    | .ok o => takeEither o found.last found.attached values

/-- The settings after a word with the values behind it, and the words that no
    option takes. -/
def step (o : Options) (values : List String) : Word → Except Stop (Options × List String)
  | .value text => .ok (o, text :: values)
  | .unknown text => .ok (o, text :: values)
  | .long flag attached => takeEither o flag attached values
  -- A letter alone is no cluster, for an empty text would count as attached to it.
  | .short flag none => take o flag values
  | .short flag (some text) =>
    match cluster flag text.toList with
    | .error fault => .error (.fault fault)
    | .ok found => takeCluster o found values

/-- The settings after some words, each with the values behind it, and the words
    that no option takes. -/
def consume (o : Options) : List (Word × List String) → Except Stop (Options × List String)
  | [] => .ok (o, [])
  | (word, values) :: rest =>
    match step o values word with
    | .error stop => .error stop
    | .ok (o, extra) => (consume o rest).map fun (o, more) => (o, extra ++ more)

/-- The settings that a command line asks for. -/
def parse (words : List String) : Except Stop Options :=
  match classifyAll words with
  | .error fault => .error (.fault fault)
  | .ok (before, after) =>
    match consume Options.default (runs before).2 with
    | .error stop => .error stop
    | .ok (o, extra) =>
      match (runs before).1 ++ extra ++ after with
      | [] => .ok o
      | words => .error (.fault (.unrecognized words))

end CommandLine

end ClientPlan
