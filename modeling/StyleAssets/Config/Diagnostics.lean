import StyleAssets.Log
import StyleAssets.Path.Basic

/-!
# Diagnostics of directories

What is wrong with the two directories that a run touches. A missing dump directory is only worth
a warning; every other problem stops the run.

* `Diagnostic` — one problem with one directory.
* `Diagnostics.render` — all fatal problems, as an error message.
* `Diagnostics.finish` — warns, and fails if a problem is fatal.
-/

namespace StyleAssets

/-- A setting that names a directory. -/
inductive DirectorySetting where
  | dumpDir
  | outDir
  deriving DecidableEq, Repr

def DirectorySetting.key : DirectorySetting → String
  | dumpDir => "rewrite.dump_dir"
  | outDir => "output.dir"

def DirectorySetting.flag : DirectorySetting → String
  | dumpDir => "--dump-dir"
  | outDir => "--out-dir"

/-- What is wrong with a directory: it does not exist, it is something else, or it holds stylesheets
that are about to be read. -/
inductive DirectoryProblem where
  | missing
  | notADirectory
  | holdsInputs
  deriving DecidableEq, Repr

/-- One problem with one directory. -/
structure Diagnostic where
  setting : DirectorySetting
  problem : DirectoryProblem
  path : Path
  deriving DecidableEq, Repr

namespace Diagnostic

/-- Only a missing directory lets a run go on. -/
def isFatal (d : Diagnostic) : Bool := d.problem != .missing

def message (d : Diagnostic) : String :=
  let path := d.path.display
  match d.problem with
  | .missing => s!"`{path}` does not exist, asset copies will fail"
  | .notADirectory => s!"`{path}` is not a directory"
  | .holdsInputs => s!"`{path}` contains input stylesheets, they would be overwritten"

def hint (d : Diagnostic) : String :=
  match d.problem with
  | .missing => s!"create `{d.path.display}` before running"
  | .notADirectory => s!"point {d.setting.key} (or {d.setting.flag}) at a directory"
  | .holdsInputs => "write rewritten stylesheets to a separate directory"

/-- A diagnostic on two lines. -/
def render (colour : Bool) (d : Diagnostic) : String :=
  "[" ++ Colour.paint colour "36" d.setting.key ++ "] " ++ d.message ++ "\n  " ++
    Colour.paint colour "33" "hint:" ++ " " ++ d.hint

end Diagnostic

/-- Problems in the order in which they were found. -/
abbrev Diagnostics := List Diagnostic

namespace Diagnostics

def errors (ds : Diagnostics) : Diagnostics := ds.filter Diagnostic.isFatal

def warnings (ds : Diagnostics) : Diagnostics := ds.filter (!·.isFatal)

def hasErrors (ds : Diagnostics) : Bool := ds.any Diagnostic.isFatal

/-- All fatal problems under a title that counts them. -/
def render (colour : Bool) (ds : Diagnostics) : String :=
  let count := toString (errors ds).length
  String.join <| Colour.paint colour "31;1" s!"config rejected ({count} problem(s)):" ::
    (errors ds).map fun d => "\n\n" ++ d.render colour

/-- One warning for each problem that is not fatal. -/
def log (ds : Diagnostics) : Log :=
  (warnings ds).map fun d => .warning s!"[{d.setting.key}] {d.message}"

/-- The problems themselves if one of them is fatal, and the warnings. -/
def finish (ds : Diagnostics) : Except Diagnostics Unit × Log :=
  (if hasErrors ds then .error ds else .ok (), log ds)

end Diagnostics

end StyleAssets
