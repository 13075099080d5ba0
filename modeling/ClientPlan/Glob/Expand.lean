import ClientPlan.FileSystem.Basic
import ClientPlan.Glob.Pattern
import ClientPlan.Path.Normal

/-!
# Path Patterns

The paths that a pattern with wildcards stands for.

The last part of a pattern is matched against the entries of each directory that
the part before it stands for, which may be a pattern itself. A part without
wildcards has to exist as it is written, and a pattern that ends in a slash
stands for directories. Wildcards do not stand for hidden names, those that
start with a dot, unless the part itself starts with one.

A part that consists of two stars stands, in a recursive search, for the
directory itself and for everything below it that is not hidden and not inside
something hidden. Otherwise it is a pattern like any other. The directory itself
is a result whether or not there is one. This is the rule of release 3.11.8 of the
search and of those before; from 3.11.9 and 3.12.3 on a missing one is left out.

A result keeps the spelling of the pattern, so one file may be found under
several paths.

## Main definitions

* `Glob.entryNames`: The names in a directory.
* `Glob.matching`: What a last part stands for in a directory.
* `Glob.expand`: The paths that a pattern stands for.
-/

namespace ClientPlan

namespace Glob

/-- Whether a name is hidden. -/
def isHidden (name : Name) : Bool :=
  name.head? == some '.'

/-- The part of a pattern that stands for any depth in a recursive search. -/
def anyDepth : Name := ['*', '*']

/-- Where and how a pattern is expanded. -/
structure Search where
  fs : FileSystem
  /-- The working directory. -/
  cwd : Path
  recursive : Bool

/-- The directory whose entries are matched, the working directory if none is
    named. A path with a NUL character cannot be asked for its entries; one that
    leads to no directory has none. -/
def Search.directory? (s : Search) (dir : Path) : Except FileSystem.Fault (Option Address) :=
  if '\x00' ∈ dir then .error .nulInPath else .ok (s.fs.directory? s.cwd (Path.orHere dir))

/-- Whether an entry is of interest: only a directory is, if only directories
    are asked for. -/
def wanted (onlyDirectories : Bool) (entry : Entry) : Bool :=
  !onlyDirectories || entry = .directory

/-- The names in a directory. -/
def Search.entryNames (s : Search) (dir : Path) (onlyDirectories : Bool) :
    Except FileSystem.Fault (List Name) :=
  (s.directory? dir).map fun
    | none => []
    | some address =>
      ((s.fs.children address).filter fun e => wanted onlyDirectories e.2).map (·.1)

/-- The paths from a directory to everything below it that is not hidden. -/
def Search.visibleBelow (s : Search) (dir : Path) (onlyDirectories : Bool) :
    Except FileSystem.Fault (List Path) :=
  (s.directory? dir).map fun
    | none => []
    | some address =>
      ((s.fs.reached dir address).filter fun e =>
        wanted onlyDirectories e.2 && !e.1.any isHidden).map fun e => Path.ofSegments e.1

/-- What the last part of a pattern stands for in a directory, as paths from
    there. A directory that is not named is no result of its own, though it may
    be searched further. One that is named is a result of two stars even where it
    does not exist, as in release 3.11.8. -/
def Search.matching (s : Search) (dir : Path) (part : Name) (onlyDirectories : Bool) :
    Except FileSystem.Fault (List Path) :=
  if !isPattern part then
    if part = [] then .ok (if s.fs.isDirectory s.cwd dir then [[]] else [])
    else .ok (if s.fs.contains s.cwd (Path.join dir part) then [part] else [])
  else if s.recursive ∧ part = anyDepth then
    (s.visibleBelow dir onlyDirectories).map fun below =>
      -- The empty path stands for the directory itself.
      if dir = [] ∧ onlyDirectories = false then below else [] :: below
  else
    (s.entryNames dir onlyDirectories).map fun names =>
      names.filter fun name => (isHidden part || !isHidden name) && fits part name

/-- The matches of a last part in each of some directories, as paths from where
    the directories are seen. -/
def Search.matchingAll (s : Search) (part : Name) (onlyDirectories : Bool) :
    List Path → Except FileSystem.Fault (List Path)
  | [] => .ok []
  | dir :: dirs =>
    match s.matching dir part onlyDirectories with
    | .error fault => .error fault
    | .ok found =>
      match s.matchingAll part onlyDirectories dirs with
      | .error fault => .error fault
      | .ok more => .ok (found.map (Path.join dir) ++ more)

/-- The paths that a pattern stands for, or the directories among them. The part
    before the last slash may stand for a directory in several ways; it is
    searched once. -/
def Search.expand (s : Search) (onlyDirectories : Bool) (pattern : Path) :
    Except FileSystem.Fault (List Path) :=
  let dir := Path.directory pattern
  let part := Path.lastName pattern
  -- Without a wildcard nothing is listed, and the path is only looked up.
  if !isPattern pattern then
    if part = [] then .ok (if s.fs.isDirectory s.cwd dir then [pattern] else [])
    else .ok (if s.fs.contains s.cwd pattern then [pattern] else [])
  else if _h : isPattern dir ∧ dir.length < pattern.length then
    -- Only directories can hold a match of the last part.
    match s.expand true dir with
    | .error fault => .error fault
    | .ok dirs => s.matchingAll part onlyDirectories dirs.eraseDups
  else s.matchingAll part onlyDirectories [dir]
  termination_by pattern.length
  decreasing_by exact _h.2

end Glob

end ClientPlan
