import StyleAssets.Config.Diagnostics
import StyleAssets.FileTree.Lookup
import StyleAssets.Number.Shortest
import StyleAssets.Rewrite.Outcome
import StyleAssets.Text.Quoted
import StyleAssets.Toml.Document

/-!
# Configuration

* `Config` — the settings of a run.
* `Config.ofToml` — the settings that a document gives, and the keys that mean nothing.
* `Config.validate` — the problems of the directories that are set.
-/

namespace StyleAssets

/-- The settings of a run. They come from the file at `configPath`, if there is one, where paths are
relative to `root`. Without `outDir`, rewritten stylesheets are printed. -/
structure Config where
  configPath : Option Path := none
  root : Path := ⟨[]⟩
  urlPrefix : Option Text := none
  dumpDir : Option Path := none
  missing : MissingAssetPolicy := .warn
  outDir : Option Path := none
  minify : Bool := false
  deriving DecidableEq, Repr

def Config.rewriteOptions (c : Config) : RewriteOptions := ⟨c.urlPrefix, c.dumpDir, c.missing⟩

/-- Why a document gives no settings. A choice is made by text that names a variant, or by a table
of one key that is such a name and says nothing more. -/
inductive TomlError where
  | malformed
  | invalidType (found expected : String)
  | unknownVariant (name : Text)
  | notAVariant
  | notOneVariant
  | variantWithContent
  deriving DecidableEq, Repr

namespace TomlError

def message : TomlError → String
  | malformed => "TOML parse error"
  | invalidType found expected => s!"invalid type: {found}, expected {expected}"
  | unknownVariant name => s!"unknown variant `{String.ofList name}`, expected `warn` or `error`"
  | notAVariant => "wanted string or table"
  | notOneVariant => "wanted exactly 1 element"
  | variantWithContent => "expected empty table"

end TomlError

namespace TomlValue

def describe : TomlValue → String
  | string text => "string " ++ String.ofList (Text.quoted text)
  | integer n => s!"integer `{n}`"
  | float x => s!"floating point `{String.ofList (Shortest.text x)}`"
  | boolean b => s!"boolean `{b}`"
  | array _ _ => "sequence"
  | datetime => "map"
  | table _ _ => "map"

def text (expected : String) : TomlValue → Except TomlError Text
  | string text => .ok text
  | value => .error (.invalidType value.describe expected)

def bool : TomlValue → Except TomlError Bool
  | boolean b => .ok b
  | value => .error (.invalidType value.describe "a boolean")

def namedPolicy (name : Text) : Except TomlError MissingAssetPolicy :=
  if name = "warn".toList then .ok .warn
  else if name = "error".toList then .ok .error
  else .error (.unknownVariant name)

/-- A policy, given by its name or as the only key of a table with an empty value. -/
def policy : TomlValue → Except TomlError MissingAssetPolicy
  | string name => namedPolicy name
  | table _ [(name, content)] => do
    let policy ← namedPolicy name
    match content with
    | table _ [] => .ok policy
    | array _ [] => .ok policy
    | _ => .error .variantWithContent
  | table _ _ => .error .notOneVariant
  | _ => .error .notAVariant

end TomlValue

namespace Config

/-- A key of a section, and what its value does to the settings. -/
abbrev Field := Text × (Config → TomlValue → Except TomlError Config)

/-- A part of a configuration file. In messages it goes by its title. -/
structure Section where
  key : Text
  title : String
  fields : List Field

def rewriteSection : Section where
  key := "rewrite".toList
  title := "struct RewriteSection"
  fields := [
    ("prefix".toList, fun c v => do return { c with urlPrefix := some (← v.text "a string") }),
    ("dump_dir".toList, fun c v => do
      return { c with dumpDir := some (.ofText (← v.text "path string")) }),
    ("missing".toList, fun c v => do return { c with missing := ← v.policy })]

def outputSection : Section where
  key := "output".toList
  title := "struct OutputSection"
  fields := [
    ("dir".toList, fun c v => do
      return { c with outDir := some (.ofText (← v.text "path string")) }),
    ("minify".toList, fun c v => do return { c with minify := ← v.bool })]

/-- The only key of a date or time, where one is taken for a table. -/
def datetimeKey : Text := "$__toml_private_datetime".toList

/-- Settings and the keys that mean nothing, in order. -/
abbrev Reading := Config × List Text

def Section.readEntry (s : Section) (r : Reading) (entry : Text × TomlValue) :
    Except TomlError Reading :=
  match s.fields.lookup entry.1 with
  | some set => do return (← set r.1 entry.2, r.2)
  | none => .ok (r.1, r.2 ++ [s.key ++ '.' :: entry.1])

/-- Reads a section: a table, or an array of its values in the order of the fields. -/
def Section.read (s : Section) (r : Reading) : TomlValue → Except TomlError Reading
  | .table _ entries => entries.foldlM s.readEntry r
  | .datetime => .ok (r.1, r.2 ++ [s.key ++ '.' :: datetimeKey])
  | .array _ items => do
    return (← (s.fields.zip items).foldlM (fun c (field, value) => field.2 c value) r.1, r.2)
  | value => .error (.invalidType value.describe s.title)

def readEntry (r : Reading) (entry : Text × TomlValue) : Except TomlError Reading :=
  if entry.1 = rewriteSection.key then rewriteSection.read r entry.2
  else if entry.1 = outputSection.key then outputSection.read r entry.2
  else .ok (r.1, r.2 ++ [entry.1])

/-- The settings that a document gives, and the keys that mean nothing. -/
def ofEntries (entries : TomlEntries) : Except TomlError Reading :=
  entries.foldlM readEntry ({}, [])

def ofToml (t : Text) : Except TomlError Reading :=
  match Toml.parse? t with
  | some entries => ofEntries entries
  | none => .error .malformed

/-- The problems of the directories that are set, for a run over some stylesheets. -/
def validate (c : Config) (d : Disk) (stylesheets : List Path) : Diagnostics :=
  let dump := match c.dumpDir with
    | none => []
    | some dumpDir =>
      if !d.holds dumpDir then [⟨.dumpDir, .missing, dumpDir⟩]
      else if !d.isDirectory dumpDir then [⟨.dumpDir, .notADirectory, dumpDir⟩]
      else []
  let out := match c.outDir with
    | none => []
    | some outDir =>
      let place := d.normalize outDir
      let holdsInput (sheet : Path) : Bool := match (d.normalize sheet).parent? with
        | some parent => decide (parent.Same place)
        | none => false
      let occupied := d.holds outDir && !d.isDirectory outDir
      (if occupied then [⟨.outDir, .notADirectory, outDir⟩] else []) ++
        if stylesheets.any holdsInput then [⟨.outDir, .holdsInputs, place⟩] else []
  dump ++ out

end Config

end StyleAssets
