import StyleAssets.Css.Component
import StyleAssets.Css.Property

/-!
# Values of declarations

Where the value of a known property is a single word, colour or url that it takes, or several with
commas between them, only these are written, in their shortest spelling. Any other value keeps its
components. A comment is written as nothing, and still it is one of them: a blank before it or after
it is not at an end of the value, and stays.

* `PropertyGroup.value?` — a single component as the value of a property.
* `Css.declarationText` — a property and its value, minified. A known name is written without
  capitals.
-/

namespace StyleAssets.Css

namespace Component

def asColour? : Component → Option Colour
  | .colour shade => some shade
  | .name word => Colour.named? word
  | _ => none

/-- A url, whatever the case of the word before its brackets. -/
def asUrl? : Component → Option Text
  | .url place => some place
  | .function word arguments =>
    match significant arguments with
    | [.string place] => if word.map Char.toLower = ['u', 'r', 'l'] then some place else none
    | _ => none
  | _ => none

end Component

/-- What a group of properties takes a component for, if it is a value of theirs. -/
def PropertyGroup.value? (g : PropertyGroup) (c : Component) : Option Component :=
  match c with
  | .name word =>
    let lower := word.map Char.toLower
    match g.shorter.find? (·.1.toList == lower) with
    | some (_, text) => some (.verbatim text.toList)
    | none =>
      if g.words.any (·.toList == lower) then some (.name lower)
      else if g.colours && Colour.systemNames.any (·.toList == lower) then some (.name lower)
      else if g.names && generalWords.all (·.toList != lower) then some c
      else colour?
  | _ => colour?.or (if g.urls then c.asUrl?.map .url else none)
where
  colour? : Option Component := if g.colours then c.asColour?.map .colour else none

/-- What a group of properties takes the only component of a value for. -/
def PropertyGroup.single? (g : PropertyGroup) : List Component → Option Component
  | [c] => g.value? c
  | _ => none

def isComma : Component → Bool
  | .delimiter ',' => true
  | _ => false

/-- A property with its value, minified. -/
def declarationText (property : Text) (value : List Component) : Text × Text :=
  let lower := property.map Char.toLower
  match group? lower with
  | none => (nameText property, Component.textOfAll (tidy value))
  | some g =>
    let parts := (significant value).splitOnP isComma
    let values := if g.lists || parts.length == 1 then parts.mapM g.single? else none
    let text := match values with
      | some values => [','].intercalate (values.map Component.text)
      | none => Component.textOfAll (tidy value)
    (nameText lower, text)

end StyleAssets.Css
