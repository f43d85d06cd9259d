import StyleAssets.Text.Basic

/-!
# Kinds of urls

A url is told by its text alone. What has no file extension is taken for inline data; of the rest a
leading `/` makes it absolute and `://` external; what remains names a file next to the stylesheet.

* `Url.splitExtension?` — a final `.` with one to five digits or letters after it.
* `Url.kind` — the kind of a url.
-/

namespace StyleAssets

inductive UrlKind where
  | dataUri
  | absolute
  | externalProtocol
  | localRelative
  deriving DecidableEq, Repr

namespace Url

/-- The text before a final extension, and the extension without its `.`. -/
def splitExtension? (t : Text) : Option (Text × Text) :=
  let ending := t.reverse.takeWhile Char.isAlphanum
  match t.reverse.drop ending.length with
  | '.' :: stem =>
    if 1 ≤ ending.length ∧ ending.length ≤ 5 then some (stem.reverse, ending.reverse) else none
  | _ => none

def hasExtension (t : Text) : Bool := (splitExtension? t).isSome

def dropExtension (t : Text) : Text := match splitExtension? t with
  | some (stem, _) => stem
  | none => t

/-- The kind of a url. The extension is looked at first. -/
def kind (raw : Text) : UrlKind :=
  if !hasExtension raw then .dataUri
  else if raw.head? = some '/' then .absolute
  else if Text.includes [':', '/', '/'] raw then .externalProtocol
  else .localRelative

end Url

end StyleAssets
