import ClientPlan.CommandLine.Options
import ClientPlan.Glob.Pattern
import ClientPlan.Path.Normal

/-!
# The Scope of a Run

The part of the file system that a run can look at.

A pattern is looked up below its beginning, up to the first segment with a
wildcard. The files and directories on the way there and everything below it are
all that a run needs to know, together with the output directory.

## Main definitions

* `CommandLine.beginning`: The part of a pattern in front of its wildcards.
* `CommandLine.scope`: The paths that a run looks at, and below.
-/

namespace ClientPlan

namespace CommandLine

/-- The part of a pattern in front of its wildcards. -/
def beginning (pattern : Path) : Path :=
  Path.ofSegments ((Path.segments pattern).takeWhile fun name => !Glob.isPattern name)

/-- The paths that a run looks at, and below. A path without wildcards may be
    that of a file, beside which a plan is written, so the directory that it
    stands in counts as well. -/
def scope (cwd : Path) (o : Options) : List Path :=
  let patterns := (o.clean ++ o.paths ++ o.excludes).map fun text =>
    beginning (Path.join cwd text.toList)
  let output := if o.outputPath = [] then [] else [Path.join cwd o.outputPath]
  cwd :: output ++ patterns ++ patterns.map Path.directory

/-- The beginnings of an absolute path, the root aside, the shortest first. -/
def ancestors (p : Path) : List Path :=
  let names := Path.segments p
  (List.range (names.length - 1)).map fun n => Path.ofSegments (names.take (n + 2))

end CommandLine

end ClientPlan
