import StyleAssets.Config.Load
import StyleAssets.FileTree.Walk
import StyleAssets.Rewrite.Apply

/-!
# Runs

A run takes the stylesheets that some paths name, one after the other: each is read, rewritten,
perhaps minified, and written to the output directory or printed. The first sheet that cannot be
read or written ends the run; a sheet that is left alone for a failed copy does not, but makes the
run fail in the end.

* `Minifier` — what a run minifies with.
* `Run.process` — what a run does with one stylesheet.
* `Run.start` — a whole run over given stylesheets.
* `Run.ofPaths` — collects and checks the stylesheets, runs, and says how it went.
-/

namespace StyleAssets

/-- Totals over stylesheets. Those for which a setting was missing are `skipped`, and those left
alone because of a failed copy are `rejected`. -/
structure RunSummary where
  stylesheets : Nat := 0
  rewritten : Nat := 0
  copied : Nat := 0
  copyFailures : Nat := 0
  skipped : Nat := 0
  rejected : List Path := []
  deriving DecidableEq, Repr

/-- Why a run fails. -/
inductive RunError where
  | noStylesheets
  | invalidConfig (cause : ConfigError)
  | unreadable (sheet : Path) (cause : FileError)
  | noFileName (sheet : Path)
  | uncreatable (directory : Path) (cause : FileError)
  | unwritable (target : Path) (cause : FileError)
  | rejected (count : Nat)
  deriving DecidableEq, Repr

namespace RunError

def message (colour : Bool) : RunError → String
  | noStylesheets => "no stylesheets found"
  | invalidConfig cause => cause.message colour
  | unreadable sheet _ => s!"failed to read stylesheet `{sheet.display}`"
  | noFileName sheet => s!"`{sheet.display}` has no file name"
  | uncreatable directory _ => s!"failed to create `{directory.display}`"
  | unwritable target _ => s!"failed to write `{target.display}`"
  | rejected count =>
    s!"{count} stylesheet(s) left unmodified because assets failed to copy"

def cause? : RunError → Option String
  | unreadable _ cause => some cause.message
  | uncreatable _ cause => some cause.message
  | unwritable _ cause => some cause.message
  | invalidConfig cause => cause.cause?
  | noStylesheets | noFileName _ | rejected _ => none

end RunError

namespace RunSummary

def add (s : RunSummary) (r : Report) : RunSummary where
  stylesheets := s.stylesheets + 1
  rewritten := s.rewritten + r.rewritten
  copied := s.copied + r.copied
  copyFailures := s.copyFailures + r.failures.length
  skipped := s.skipped + if r.isSkipped then 1 else 0
  rejected := s.rejected ++ if r.isFailed then [r.sourceFile] else []

def log (s : RunSummary) : Log :=
  .log "done" (s!"{s.stylesheets} stylesheet(s), {s.rewritten} url(s) rewritten, " ++
    s!"{s.copied} asset(s) copied, {s.copyFailures} copy failure(s)") ::
  if s.skipped = 0 then []
  else [.warning s!"{s.skipped} stylesheet(s) skipped: missing prefix or dump directory"]

/-- A run fails if it leaves a stylesheet alone. -/
def verdict (s : RunSummary) : Except RunError RunSummary :=
  if s.rejected.isEmpty then .ok s else .error (.rejected s.rejected.length)

def rejectedLog (s : RunSummary) : Log := s.rejected.map fun p => .error s!"rejected `{p.display}`"

end RunSummary

/-- What shortens the text of a stylesheet, if it understands it. -/
class Minifier where
  minify? : Text → Option Text

/-- A text minified if that is wanted and possible. -/
def minifyIf [Minifier] (wanted : Bool) (css : Text) : Text × Log :=
  if wanted then
    match Minifier.minify? css with
    | some minified => (minified, [])
    | none => (css, [.warning "could not minify stylesheet, writing it as-is"])
  else (css, [])

/-- What a run has done so far: the files that it has written, what it has said and printed. -/
structure Run where
  disk : Disk
  summary : RunSummary := {}
  written : List Path := []
  log : Log := []
  printed : Text := []

namespace Run

def say (r : Run) (log : Log) : Run := { r with log := r.log ++ log }

/-- Prints a text and ends its last line. -/
def print (r : Run) (css : Text) : Run :=
  { r with printed := r.printed ++ css ++ if css.getLast? = some '\n' then [] else ['\n'] }

/-- Notes that a file is about to be written; the last text written to a file wins. -/
def claim (r : Run) (target : Path) : Run :=
  if r.written.any fun other => decide (other.Same target) then
    r.say [.warning s!"`{target.display}` written more than once, last one wins"]
  else { r with written := target :: r.written }

/-- Writes the text of a stylesheet under its file name into a directory. -/
def save (r : Run) (directory source : Path) (css : Text) : Run × Except RunError Unit :=
  match source.fileName? with
  | none => (r, .error (.noFileName source))
  | some name =>
    let target := directory.join ⟨name⟩
    let r := r.claim target
    match r.disk.makeDirectories directory with
    | (disk, .error cause) => ({ r with disk }, .error (.uncreatable directory cause))
    | (disk, .ok ()) =>
      match disk.write target (Utf8.encode css) with
      | .error cause => ({ r with disk }, .error (.unwritable target cause))
      | .ok disk => ({ r with disk }, .ok ())

def emit (c : Config) (r : Run) (source : Path) (css : Text) : Run × Except RunError Unit :=
  match c.outDir with
  | none => (r.print css, .ok ())
  | some directory => r.save directory source css

def progressLog (source : Path) (rewritten : Nat) : Log :=
  if rewritten = 0 then [.debug "rewrite" s!"{source.display}: unchanged"]
  else [.log "rewrite" s!"{source.display}: {rewritten} url(s)"]

variable [Minifier]

/-- Reads, rewrites, minifies and hands on one stylesheet. -/
def process (c : Config) (r : Run) (source : Path) : Run × Except RunError Unit :=
  match Stylesheet.read r.disk source with
  | .error cause => (r, .error (.unreadable source cause))
  | .ok sheet =>
    let applied := c.rewriteOptions.apply r.disk sheet
    let (css, minifyLog) := minifyIf c.minify applied.sheet.render
    let r := { r with disk := applied.disk }
    let r := r.say (sheet.warnings ++ applied.log ++
      progressLog source applied.report.rewritten ++ minifyLog)
    match emit c r source css with
    | (r, .error e) => (r, .error e)
    | (r, .ok ()) => ({ r with summary := r.summary.add applied.report }, .ok ())

/-- Processes stylesheets in order, up to the first failure. -/
def processAll (c : Config) (r : Run) : List Path → Run × Except RunError Unit
  | [] => (r, .ok ())
  | source :: rest =>
    match process c r source with
    | (r, .error e) => (r, .error e)
    | (r, .ok ()) => processAll c r rest

def start (c : Config) (r : Run) (sheets : List Path) : Run × Except RunError RunSummary :=
  match processAll c r sheets with
  | (r, .error e) => (r, .error e)
  | (r, .ok ()) => (r.say (r.summary.log ++ r.summary.rejectedLog), r.summary.verdict)

/-- Processes the stylesheets that some paths name. -/
def ofPaths (c : Config) (d : Disk) (paths : List Path) : Run × Except RunError RunSummary :=
  let sheets := d.stylesheets paths
  let r : Run := { disk := d }
  if sheets.isEmpty then (r, .error .noStylesheets)
  else match (c.validate d sheets).finish with
    | (.error problems, log) => (r.say log, .error (.invalidConfig (.rejected problems)))
    | (.ok (), log) => start c (r.say log) sheets

end Run

end StyleAssets
