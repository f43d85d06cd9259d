import StyleAssets.CommandLine.Arguments
import StyleAssets.Config.Basic

/-!
# Loading the configuration

The settings of a run come from a file, named on the command line or found in the working directory
or above it, and from the command line, which has the last word. Directories in the file are seen
from the directory of the file, those on the command line from the working directory.

* `Surroundings.expand` — the absolute form of a directory that someone wrote down.
* `Disk.findUpward` — the nearest file of a name.
* `Config.load` — the settings for some arguments.
-/

namespace StyleAssets

/-- What a program sees of the system around it. `~` stands for its home, if that is known. -/
structure Surroundings where
  disk : Disk
  home : Option Text

/-- The home directory: what the environment says unless that is empty, else that of the account. -/
def homeDirectory (environment account : Option Text) : Option Text :=
  (environment.filter (!·.isEmpty)).or account

/-- A text with a leading `~`, alone or before a separator, replaced by the home directory. -/
def expandHome (home : Option Text) : Text → Text
  | '~' :: rest =>
    match home with
    | some directory =>
      if rest.isEmpty || rest.head? == some '/' then directory ++ rest else '~' :: rest
    | none => '~' :: rest
  | t => t

/-- The absolute form of a path that is seen from `base`. -/
def Surroundings.expand (s : Surroundings) (base p : Path) : Path :=
  s.disk.normalize (base.join (.ofText (expandHome s.home p.text)))

/-- The nearest file of a name, in a directory or above it. -/
def Disk.findUpward (d : Disk) (start name : Path) : Option Path :=
  (start.ancestors.map (·.join name)).find? d.isFile

/-- Why there is no valid configuration. -/
inductive ConfigError where
  | noWorkingDirectory
  | unreadable (file : Path) (cause : FileError)
  | malformed (cause : TomlError)
  | rejected (problems : Diagnostics)
  deriving DecidableEq, Repr

namespace ConfigError

def message (colour : Bool) : ConfigError → String
  | noWorkingDirectory => "Failed to get current working directory"
  | unreadable file _ => s!"failed to read config `{file.display}`"
  | malformed _ => "invalid config file"
  | rejected problems => problems.render colour

def cause? : ConfigError → Option String
  | noWorkingDirectory => some FileError.notFound.message
  | unreadable _ cause => some cause.message
  | malformed cause => some cause.message
  | rejected _ => none

end ConfigError

namespace Config

/-- The name of a configuration file that is found without being named. -/
def defaultFile : Path := .ofString "twist.toml"

/-- The configuration file for some arguments in a working directory, if there is one. -/
def file? (d : Disk) (cwd : Path) (a : Arguments) : Option Path :=
  match a.config with
  | some p => some (d.normalize (cwd.join p))
  | none => d.findUpward cwd defaultFile

def readFile (d : Disk) (file : Path) : Except ConfigError Reading :=
  match d.readText file with
  | .error cause => .error (.unreadable file cause)
  | .ok text =>
    match ofToml text with
    | .error cause => .error (.malformed cause)
    | .ok reading => .ok reading

def unknownFieldsLog (file : Path) (fields : List Text) : Log :=
  if fields.isEmpty then []
  else .warning s!"unknown fields in {file.display}, ignoring:" ::
    fields.map fun field => .bare ("- " ++ String.ofList field)

def anchored (s : Surroundings) (base : Path) (c : Config) : Config :=
  { c with root := base, dumpDir := c.dumpDir.map (s.expand base),
           outDir := c.outDir.map (s.expand base) }

/-- The settings with those of the command line in place of their own. -/
def override (s : Surroundings) (cwd : Path) (a : Arguments) (c : Config) : Config :=
  { c with
    urlPrefix := a.urlPrefix.or c.urlPrefix
    dumpDir := (a.dumpDir.map (s.expand cwd)).or c.dumpDir
    outDir := (a.outDir.map (s.expand cwd)).or c.outDir
    missing := if a.strict then .error else c.missing
    minify := a.minify.getD c.minify }

/-- The settings for some arguments in a working directory, and what there is to say about the
file. -/
def loadFrom (s : Surroundings) (cwd : Path) (a : Arguments) : Except ConfigError Config × Log :=
  match file? s.disk cwd a with
  | none => (.ok ((anchored s cwd {}).override s cwd a), [])
  | some file =>
    match readFile s.disk file with
    | .error e => (.error e, [])
    | .ok (c, unknown) =>
      let c := (anchored s (file.parent?.getD cwd) c).override s cwd a
      (.ok { c with configPath := some file }, unknownFieldsLog file unknown)

/-- The settings for some arguments, and what there is to say about the file. -/
def load (s : Surroundings) (a : Arguments) : Except ConfigError Config × Log :=
  match s.disk.cwdPath? with
  | some cwd => loadFrom s cwd a
  | none => (.error .noWorkingDirectory, [])

end Config

end StyleAssets
