import ClientPlan.Path.Basic

/-!
# Options

What a caller can ask for on the command line.

## Main definitions

* `Options`: The settings of a run.
* `Options.outputPath`: The directory to write to.
* `Flag`: The options that a caller can give.
* `Flag.long`, `Flag.letter?`: The spellings of an option.
* `Flag.arity`: How many values an option takes.
* `Options.turnOn`, `Options.assign`: What an option changes.
-/

namespace ClientPlan

/-- The settings of a run. -/
structure Options where
  /-- What to remove before anything else. -/
  clean : List String
  /-- Where to look for definition files. -/
  paths : List String
  /-- What to leave out. -/
  excludes : List String
  /-- Where to write, if the last option that asks for a directory has a value.
      An empty one asks to write beside the definition files. -/
  outputDir : Option String
  /-- Whether plans are written although others failed. -/
  keepGoing : Bool
  verbose : Bool
  recursive : Bool
  deriving DecidableEq, Repr

/-- The directory to write to, empty to write beside the definition files. -/
def Options.outputPath (o : Options) : Path :=
  (o.outputDir.getD "").toList

/-- The settings of a run that was asked for nothing in particular. -/
def Options.default : Options :=
  ⟨[], ["**/*.conjure.json"], [], some "", false, false, false⟩

/-- The options that a caller can give. -/
inductive Flag where
  | help
  | clean
  | paths
  | excludes
  | outputDir
  | keepGoing
  | verbose
  | recursive
  deriving DecidableEq, Repr

/-- How many values an option takes. -/
inductive Arity where
  | zero
  | one
  /-- One value or more. -/
  | many
  deriving DecidableEq, Repr

namespace Flag

/-- All options, in the order in which messages list them. -/
def all : List Flag :=
  [help, clean, paths, excludes, outputDir, keepGoing, verbose, recursive]

/-- The full spelling of an option. -/
def long : Flag → String
  | help => "--help"
  | clean => "--clean"
  | paths => "--paths"
  | excludes => "--excludes"
  | outputDir => "--output-dir"
  | keepGoing => "--keep-going"
  | verbose => "--verbose"
  | recursive => "--recursive"

/-- The letter of an option, if it has one. -/
def letter? : Flag → Option Char
  | help => some 'h'
  | clean => some 'c'
  | paths => some 'p'
  | excludes => some 'e'
  | outputDir => some 'o'
  | keepGoing => none
  | verbose => some 'v'
  | recursive => some 'r'

/-- How many values an option takes. -/
def arity : Flag → Arity
  | clean => .many
  | paths => .many
  | excludes => .many
  | outputDir => .one
  | _ => .zero

/-- The option that a letter stands for. -/
def ofLetter? (c : Char) : Option Flag :=
  all.find? fun flag => flag.letter? = some c

/-- The spellings of an option as messages show them. -/
def title (flag : Flag) : String :=
  match flag.letter? with
  | none => flag.long
  | some c => "-" ++ String.singleton c ++ "/" ++ flag.long

end Flag

namespace Options

/-- The settings after an option without a value. -/
def turnOn (o : Options) : Flag → Options
  | .keepGoing => { o with keepGoing := true }
  | .verbose => { o with verbose := true }
  | .recursive => { o with recursive := true }
  | _ => o

/-- The settings after an option with some values. They take the place of those
    that were given before. -/
def assign (o : Options) (values : List String) : Flag → Options
  | .clean => { o with clean := values }
  | .paths => { o with paths := values }
  | .excludes => { o with excludes := values }
  | .outputDir => { o with outputDir := values.head? }
  | _ => o

end Options

end ClientPlan
