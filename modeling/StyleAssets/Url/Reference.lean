import StyleAssets.Url.Kind

/-!
# Url references

The first complete `url(...)` token of a declaration value. A token starts with `url(`, holds at
least one character, and ends at the next `)`.

* `UrlReference` — a token with the text before and after it.
* `UrlReference.extract` — the first token of a value, or the reason why there is none.
-/

namespace StyleAssets

/-- A value that starts a url token and never completes one, or completes an empty one. -/
structure MalformedUrl where
  value : Text
  deriving DecidableEq, Repr

def MalformedUrl.message (e : MalformedUrl) : String :=
  s!"malformed url() token in `{String.ofList e.value}`"

/-- A `url(...)` token within a value: what stands between its parentheses, and the value before and
after it. -/
structure UrlReference where
  before : Text
  inner : Text
  after : Text
  deriving DecidableEq, Repr

namespace UrlReference

def opening : Text := ['u', 'r', 'l', '(']

def isQuote (c : Char) : Bool := c == '"' || c == '\''

/-- The url itself: quotes removed, then blanks at the ends. -/
def raw (r : UrlReference) : Text := Text.trim (r.inner.filter (!isQuote ·))

def kind (r : UrlReference) : UrlKind := Url.kind r.raw

/-- Byte offset of the token in the value. -/
def start (r : UrlReference) : Nat := Text.byteSize r.before

/-- Byte offset just after the token. -/
def stop (r : UrlReference) : Nat := r.start + Text.byteSize (opening ++ r.inner ++ [')'])

/-- The value that holds the token. -/
def value (r : UrlReference) : Text := r.before ++ (opening ++ r.inner ++ [')']) ++ r.after

/-- The token at the very start of some text: what it holds, and what follows. -/
def token? (t : Text) : Option (Text × Text) := do
  let rest ← opening.isPrefixOf? t
  match rest.takeWhile (· != ')'), rest.dropWhile (· != ')') with
  | inner@(_ :: _), _ :: after => some (inner, after)
  | _, _ => none

def first? : Text → Option UrlReference
  | [] => none
  | c :: t =>
    match token? (c :: t) with
    | some (inner, after) => some ⟨[], inner, after⟩
    | none => (first? t).map fun r => { r with before := c :: r.before }

/-- The first token of a value, if the value starts any. -/
def extract (value : Text) : Except MalformedUrl (Option UrlReference) :=
  if !Text.includes opening value then .ok none
  else match first? value with
    | none => .error ⟨value⟩
    | some r => if r.raw.isEmpty then .error ⟨value⟩ else .ok (some r)

end UrlReference

end StyleAssets
