import StyleAssets.Asset.Copy
import StyleAssets.Stylesheet
import StyleAssets.Url.Reference

/-!
# Outcomes

What becomes of one declaration.

* `RewriteOptions` — the settings of a rewriter; `RewriteOptions.settings` checks that the
  required ones are there.
* `Settings.outcome` — left untouched, skipped for a reason, or rewritten with a copy to be made.
-/

namespace StyleAssets

/-- What to do when an asset cannot be copied: warn and rewrite the reference all the same, or leave
the whole sheet as it is. -/
inductive MissingAssetPolicy where
  | warn
  | error
  deriving DecidableEq, Repr, Inhabited

/-- The settings of a rewriter, as far as they are given: what comes before the names of copies in
new urls, and the directory that receives the copies. -/
structure RewriteOptions where
  urlPrefix : Option Text := none
  dumpDir : Option Path := none
  missing : MissingAssetPolicy := .warn
  deriving DecidableEq, Repr

inductive RequiredSetting where
  | urlPrefix
  | dumpDir
  deriving DecidableEq, Repr

def RequiredSetting.description : RequiredSetting → String
  | urlPrefix => "url prefix"
  | dumpDir => "dump directory"

/-- A sheet cannot be rewritten because a setting is missing. -/
structure MissingSetting where
  setting : RequiredSetting
  stylesheet : Path
  deriving DecidableEq, Repr

def MissingSetting.message (e : MissingSetting) : String :=
  s!"no {e.setting.description} configured, skipping `{e.stylesheet.display}`"

/-- The settings that rewriting needs. -/
structure Settings where
  urlPrefix : Text
  dumpDir : Path
  deriving DecidableEq, Repr

/-- The required settings. Of two that are missing the dump directory is named. -/
def RewriteOptions.settings (o : RewriteOptions) (stylesheet : Path) :
    Except MissingSetting Settings :=
  match o.dumpDir, o.urlPrefix with
  | none, _ => .error ⟨.dumpDir, stylesheet⟩
  | _, none => .error ⟨.urlPrefix, stylesheet⟩
  | some dumpDir, some urlPrefix => .ok ⟨urlPrefix, dumpDir⟩

/-- Why a reference is left alone, with its url if it has one. -/
inductive SkipReason where
  | dataUri (raw : Text)
  | absolute (raw : Text)
  | externalProtocol (raw : Text)
  | malformed (why : MalformedUrl)
  deriving DecidableEq, Repr

def SkipReason.message : SkipReason → String
  | dataUri raw => "DataUri url: " ++ String.ofList raw
  | absolute raw => "Absolute url: " ++ String.ofList raw
  | externalProtocol raw => "ExternalProtocol url: " ++ String.ofList raw
  | malformed why => why.message

/-- What becomes of one declaration. It is `untouched` if its value starts no url token. If it is
rewritten, `raw` is the url, `value` is to be written, and `job` is the copy behind it. -/
inductive Outcome where
  | untouched
  | skip (reason : SkipReason)
  | rewrite (raw value : Text) (job : CopyJob)
  deriving DecidableEq, Repr

namespace Outcome

def log : Outcome → Log
  | untouched => []
  | skip reason => [.debug "skip" reason.message]
  | rewrite raw value _ => [.debug "rewrite" s!"{String.ofList raw} -> {String.ofList value}"]

def newValue? : Outcome → Option Text
  | rewrite _ value _ => some value
  | _ => none

def job? : Outcome → Option CopyJob
  | rewrite _ _ job => some job
  | _ => none

end Outcome

namespace Settings

/-- The token that names a copy. -/
def newToken (s : Settings) (name : Text) : Text :=
  "url(\"".toList ++ s.urlPrefix ++ '/' :: name ++ "\")".toList

def outcome (s : Settings) (cwd : Option Path) (sheet : Path) (value : Text) : Outcome :=
  match UrlReference.extract value with
  | .error why => .skip (.malformed why)
  | .ok none => .untouched
  | .ok (some r) =>
    match r.kind with
    | .dataUri => .skip (.dataUri r.raw)
    | .absolute => .skip (.absolute r.raw)
    | .externalProtocol => .skip (.externalProtocol r.raw)
    | .localRelative =>
      let asset := OutputAsset.derive cwd sheet r.raw
      .rewrite r.raw (r.before ++ s.newToken asset.name ++ r.after) (.ofAsset asset s.dumpDir)

end Settings

/-- What becomes of one declaration of a sheet; fails only if a setting is missing. -/
def RewriteOptions.process (o : RewriteOptions) (cwd : Option Path) (sheet : Path)
    (d : Declaration) : Except MissingSetting Outcome := do
  let settings ← o.settings sheet
  return settings.outcome cwd sheet d.value

end StyleAssets
