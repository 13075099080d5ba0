import ClientPlan.CommandLine.Parser

/-!
# Help Texts

What is written when no run follows a command line.

## Main definitions

* `CommandLine.usage`: The forms of a command line.
* `CommandLine.help`: The answer to a request for help.
* `CommandLine.Stop.output`, `CommandLine.Stop.errorOutput`: What is written.
* `CommandLine.Stop.exitCode`: The exit code.
-/

namespace ClientPlan

namespace CommandLine

/-- The name of the program. -/
def program : String := "conjure-stub-generator"

/-- Lines, each of them ended. -/
def unlines (lines : List String) : String :=
  String.join (lines.map fun line => line ++ "\n")

/-- The forms of a command line. -/
def usage : String := unlines [
  "usage: " ++ program ++ " [-h] [-c CLEAN [CLEAN ...]]",
  "                              [-p PATHS [PATHS ...]]",
  "                              [-e EXCLUDES [EXCLUDES ...]] [-o OUTPUT_DIR]",
  "                              [--keep-going] [-v] [-r]"]

/-- The answer to a request for help. -/
def help : String := usage ++ unlines [
  "",
  "Plan client stubs for conjure IR files.",
  "",
  "options:",
  "  -h, --help            show this help message and exit",
  "  -c CLEAN [CLEAN ...], --clean CLEAN [CLEAN ...]",
  "                        path or glob expressions that match files to clean up",
  "                        before plan generation.",
  "  -p PATHS [PATHS ...], --paths PATHS [PATHS ...]",
  "                        path or glob expressions that match *.conjure.json",
  "                        files for plan generation.",
  "  -e EXCLUDES [EXCLUDES ...], --excludes EXCLUDES [EXCLUDES ...]",
  "                        path or glob expressions to exclude from path matches.",
  "  -o OUTPUT_DIR, --output-dir OUTPUT_DIR",
  "                        directory to write all generated plans; defaults to",
  "                        alongside each IR file if omitted.",
  "  --keep-going          write the plans of valid services even if other",
  "                        services fail.",
  "  -v, --verbose         log every placement decision.",
  "  -r, --recursive       recursively search for *.conjure.json files with a",
  "                        given glob expression."]

/-- What is written to the standard output. -/
def Stop.output : Stop → String
  | help => CommandLine.help
  | fault _ => ""

/-- What is written to the standard error output. -/
def Stop.errorOutput : Stop → String
  | help => ""
  | fault f => usage ++ program ++ ": error: " ++ f.message ++ "\n"

/-- The exit code: a request for help is no failure. -/
def Stop.exitCode : Stop → Nat
  | help => 0
  | fault _ => 2

end CommandLine

end ClientPlan
