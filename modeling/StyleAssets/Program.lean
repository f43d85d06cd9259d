import StyleAssets.Css.Minify
import StyleAssets.Run

/-!
# The program

What the program does with its arguments: it loads the configuration, runs, and ends with an exit
code. All of it is a function of the arguments and the surroundings.

* `Program.run` — the whole program.
-/

namespace StyleAssets

namespace UsageError

/-- Zero for those who asked for help or the version. -/
def exitCode : UsageError → Nat
  | helpWanted | versionWanted => 0
  | _ => 2

def optionText (option : CommandOption) : String := "--" ++ option.longName

def message : UsageError → String
  | nothingGiven => "no paths are given"
  | unknownOption text => s!"unexpected argument `{String.ofList (Utf8.lossy text)}`"
  | invalidValue (some option) => s!"`{optionText option}` needs another value"
  | invalidValue none => "a path must not be empty"
  | invalidText option => s!"the value of `{optionText option}` is not text"
  | unexpectedValue option => s!"`{optionText option}` takes no value"
  | repeatedOption option => s!"`{optionText option}` is given more than once"
  | missingPaths => "no paths are given"
  | helpWanted => ""
  | versionWanted => ""

end UsageError

namespace Program

/-- The name and version of the program. -/
def version : String := "twist-assets 0.1.0"

def help : String := String.intercalate "\n" [
  "Rewrite relative url() references in stylesheets and dump the assets",
  "",
  "Usage: twist [OPTIONS] <PATH>...",
  "",
  "Arguments:",
  "  <PATH>...                Stylesheets or directories (searched for *.css)",
  "",
  "Options:",
  "  -p, --prefix <PREFIX>    Prefix for rewritten urls (e.g. /static/images)",
  "  -d, --dump-dir <DIR>     Directory receiving copied assets (must exist)",
  "  -o, --out-dir <DIR>      Write rewritten stylesheets here instead of stdout",
  "      --strict             Leave a stylesheet unmodified when an asset fails to copy",
  "  -m, --minify [<BOOL>]    Minify the rewritten stylesheets",
  "  -C, --config <FILE>      Config file path (default: twist.toml, searched upward)",
  "  -v, --verbose            Enable verbose output for debugging",
  "      --color <WHEN>       Control colored output (auto, always, never)",
  "  -h, --help               Print help",
  "  -V, --version            Print version",
  ""]

structure Finished where
  disk : Disk
  stdout : Text := []
  stderr : String := ""
  exitCode : Nat := 0

/-- An error and what is behind it, as the program ends with it. -/
def errorText (message : String) (cause? : Option String) : String :=
  "Error: " ++ message ++ (match cause? with
    | some cause => "\n\nCaused by:\n    " ++ cause
    | none => "") ++ "\n"

/-- The end of a program that was called in a way that asks for no run. -/
def refuse (d : Disk) (e : UsageError) : Finished :=
  match e with
  | .helpWanted => { disk := d, stdout := help.toList }
  | .versionWanted => { disk := d, stdout := (version ++ "\n").toList }
  | .nothingGiven => { disk := d, stderr := help, exitCode := e.exitCode }
  | _ => { disk := d, stderr := s!"error: {e.message}\n", exitCode := e.exitCode }

def showsColour (terminal : Bool) : ColourChoice → Bool
  | .automatic => terminal
  | .always => true
  | .never => false

def runWith [Minifier] (s : Surroundings) (terminal : Bool) (a : Arguments) : Finished :=
  let colour := showsColour terminal a.colour
  match Config.load s a with
  | (.error e, log) =>
    { disk := s.disk, exitCode := 1,
      stderr := log.render a.verbose colour ++ errorText (e.message colour) e.cause? }
  | (.ok config, loadLog) =>
    let (r, verdict) := Run.ofPaths config s.disk a.paths
    let said := Log.render a.verbose colour (loadLog ++ r.log)
    match verdict with
    | .ok _ => { disk := r.disk, stdout := r.printed, stderr := said }
    | .error e =>
      { disk := r.disk, stdout := r.printed, exitCode := 1,
        stderr := said ++ errorText (e.message colour) e.cause? }

/-- The program. Where nothing is said about colours, they are shown on a terminal. -/
def run [Minifier] (s : Surroundings) (terminal : Bool) (arguments : List Bytes) : Finished :=
  match Arguments.parse arguments with
  | .ok a => runWith s terminal a
  | .error e => refuse s.disk e

instance : Minifier := ⟨Css.minify?⟩

end Program

end StyleAssets
