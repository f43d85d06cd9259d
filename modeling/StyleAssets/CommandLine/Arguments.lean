import StyleAssets.Path.Basic

/-!
# Command-line arguments

Arguments are read from left to right. An option or a run of paths stays open until the next
argument that is understood; only then its values are checked. So an unknown option is reported
before a bad value to its left, and every other mistake in the order of the arguments.

* `Arguments` — what a command line asks for.
* `UsageError` — what is wrong with a command line, or why it asks for no run.
* `Arguments.parse` — reads a command line.
-/

namespace StyleAssets

/-- When to colour messages: `automatic` is where those who receive them can show colours. -/
inductive ColourChoice where
  | automatic
  | always
  | never
  deriving DecidableEq, Repr

/-- What a command line asks for. With `strict`, a sheet is left alone if one of its assets cannot
be copied. -/
structure Arguments where
  paths : List Path := []
  urlPrefix : Option Text := none
  dumpDir : Option Path := none
  outDir : Option Path := none
  strict : Bool := false
  minify : Option Bool := none
  config : Option Path := none
  verbose : Bool := false
  colour : ColourChoice := .automatic
  deriving DecidableEq, Repr

inductive CommandOption where
  | urlPrefix
  | dumpDir
  | outDir
  | strict
  | minify
  | config
  | verbose
  | colour
  | help
  | version
  deriving DecidableEq, Repr

/-- Why a command line asks for no run. -/
inductive UsageError where
  | nothingGiven
  | unknownOption (text : Bytes)
  | invalidValue (option : Option CommandOption)
  | invalidText (option : CommandOption)
  | unexpectedValue (option : CommandOption)
  | repeatedOption (option : CommandOption)
  | missingPaths
  | helpWanted
  | versionWanted
  deriving DecidableEq, Repr

namespace CommandOption

/-- All options, in the order in which help lists them. -/
def all : List CommandOption :=
  [urlPrefix, dumpDir, outDir, strict, minify, config, verbose, colour, help, version]

def longName : CommandOption → String
  | urlPrefix => "prefix"
  | dumpDir => "dump-dir"
  | outDir => "out-dir"
  | strict => "strict"
  | minify => "minify"
  | config => "config"
  | verbose => "verbose"
  | colour => "color"
  | help => "help"
  | version => "version"

def letter? : CommandOption → Option Char
  | urlPrefix => some 'p'
  | dumpDir => some 'd'
  | outDir => some 'o'
  | minify => some 'm'
  | config => some 'C'
  | verbose => some 'v'
  | help => some 'h'
  | version => some 'V'
  | strict => none
  | colour => none

def takesValue : CommandOption → Bool
  | urlPrefix | dumpDir | outDir | minify | config | colour => true
  | strict | verbose | help | version => false

/-- What stands for the value where none is given; no such value makes the option need one. -/
def impliedValue? : CommandOption → Option Bytes
  | minify => some (Utf8.encode "true".toList)
  | _ => none

def named? (name : Bytes) : Option CommandOption :=
  all.find? fun o => Utf8.encode o.longName.toList == name

def lettered? (byte : UInt8) : Option CommandOption :=
  all.find? fun o => o.letter?.map (fun c => UInt8.ofNat c.toNat) == some byte

end CommandOption

namespace Arguments

/-- A path; the empty one denotes nothing. -/
def readPath (option : Option CommandOption) (value : Bytes) : Except UsageError Path :=
  if value.isEmpty then .error (.invalidValue option) else .ok ⟨value⟩

def readChoice {α : Type} (option : CommandOption) (choices : List (String × α)) (value : Bytes) :
    Except UsageError α :=
  match choices.find? fun choice => Utf8.encode choice.1.toList == value with
  | some choice => .ok choice.2
  | none => .error (.invalidValue option)

/-- The arguments with one more option, given for the first time. -/
def set (a : Arguments) (option : CommandOption) (value : Bytes) : Except UsageError Arguments :=
  match option with
  | .urlPrefix =>
    match Utf8.decode? value with
    | some text => .ok { a with urlPrefix := some text }
    | none => .error (.invalidText option)
  | .dumpDir => do return { a with dumpDir := some (← readPath option value) }
  | .outDir => do return { a with outDir := some (← readPath option value) }
  | .config => do return { a with config := some (← readPath option value) }
  | .minify => do
    return { a with minify := some (← readChoice option [("true", true), ("false", false)] value) }
  | .colour => do
    let choices := [("auto", ColourChoice.automatic), ("always", .always), ("never", .never)]
    return { a with colour := ← readChoice option choices value }
  | .strict => .ok { a with strict := true }
  | .verbose => .ok { a with verbose := true }
  | .help => .error .helpWanted
  | .version => .error .versionWanted

/-- What may still grow at the end of what has been read. An option comes with the value that it has
got so far. -/
inductive Unfinished where
  | nothing
  | option (option : CommandOption) (value : Option Bytes)
  | paths (values : List Bytes)

/-- The state of reading between two arguments. Options that are `given` have been settled. -/
structure Reader where
  arguments : Arguments := {}
  given : List CommandOption := []
  unfinished : Unfinished := .nothing

namespace Reader

/-- Adds an option with what has been given as its value. -/
def add (r : Reader) (option : CommandOption) (value : Option Bytes) : Except UsageError Reader :=
  match value.or (if option.takesValue then option.impliedValue? else some []) with
  | none => .error (.invalidValue option)
  | some value =>
    if option ∈ r.given then .error (.repeatedOption option)
    else do
      let arguments ← r.arguments.set option value
      return { arguments, given := option :: r.given, unfinished := .nothing }

def settle (r : Reader) : Except UsageError Reader :=
  match r.unfinished with
  | .nothing => .ok r
  | .option option value => r.add option value
  | .paths values => do
    let paths ← values.mapM (readPath none)
    let arguments := { r.arguments with paths := r.arguments.paths ++ paths }
    return { r with arguments, unfinished := .nothing }

/-- Takes an option; a value that is not attached may follow as the next argument. -/
def takeOption (r : Reader) (option : CommandOption) (attached : Option Bytes) :
    Except UsageError Reader := do
  let r ← r.settle
  if option.takesValue && attached.isNone then
    return { r with unfinished := .option option none }
  else r.add option attached

/-- Takes an argument that is no option. -/
def takePath (r : Reader) (value : Bytes) : Except UsageError Reader :=
  match r.unfinished with
  | .paths values => .ok { r with unfinished := .paths (values ++ [value]) }
  | _ => do return { ← r.settle with unfinished := .paths [value] }

/-- Takes an argument that is no option, where an option may still wait for its value. -/
def takePlain (r : Reader) (value : Bytes) : Except UsageError Reader :=
  match r.unfinished with
  | .option option none => .ok { r with unfinished := .option option (some value) }
  | _ => r.takePath value

def dash : UInt8 := 0x2D

def equals : UInt8 := 0x3D

/-- Takes what follows two dashes: a name, perhaps with a value after `=`. -/
def takeLong (r : Reader) (argument : Bytes) : Except UsageError Reader :=
  let name := argument.takeWhile (· != equals)
  let attached := match argument.drop name.length with
    | _ :: value => some value
    | [] => none
  match CommandOption.named? name with
  | none => .error (.unknownOption (dash :: dash :: name))
  | some option =>
    if attached.isSome && !option.takesValue then .error (.unexpectedValue option)
    else r.takeOption option attached

/-- Takes what follows one dash: letters, and after that of an option with a value the value,
perhaps after `=`. -/
def takeLetters (r : Reader) : Bytes → Except UsageError Reader
  | [] => .ok r
  | byte :: rest =>
    match CommandOption.lettered? byte with
    | none => .error (.unknownOption [dash, byte])
    | some option =>
      if option.takesValue then
        r.takeOption option <| match rest with
          | [] => none
          | first :: more => some (if first = equals then more else rest)
      else do (← r.takeOption option none).takeLetters rest

/-- Takes one argument; a single dash is no option. -/
def take (r : Reader) (argument : Bytes) : Except UsageError Reader :=
  match argument with
  | [] => r.takePlain argument
  | [_] => r.takePlain argument
  | first :: second :: rest =>
    if first != dash then r.takePlain argument
    else if second = dash then r.takeLong rest
    else r.takeLetters (second :: rest)

/-- Takes all arguments. After two dashes alone nothing is an option any more. -/
def takeAll (r : Reader) : List Bytes → Except UsageError Reader
  | [] => r.settle
  | argument :: rest =>
    if argument = [dash, dash] then do (← rest.foldlM takePath r).settle
    else do (← r.take argument).takeAll rest

end Reader

def parse (arguments : List Bytes) : Except UsageError Arguments := do
  let r ← Reader.takeAll {} arguments
  if r.arguments.paths.isEmpty then
    .error (if r.given.isEmpty then .nothingGiven else .missingPaths)
  else return r.arguments

end Arguments

end StyleAssets
