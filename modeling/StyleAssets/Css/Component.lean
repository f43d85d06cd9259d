import StyleAssets.Css.Colour
import StyleAssets.Css.Spelling
import StyleAssets.Css.Token

/-!
# Components of style sheets

The tokens of a sheet, read for what they stand for. A function is one component, with all that is
between its brackets. A sheet with a broken string or url in it, with a bracket that fits no other,
or with brackets that belong to no function and no rule, has no components.

* `Component` — blanks, names, strings, urls, functions and all else a sheet is made of.
* `Component.text` — a component as it is written in a minified sheet.
* `Css.tidy` — components without the blanks that separate nothing.
* `Css.components?` — the components of a sheet.
-/

namespace StyleAssets.Css

/-- A part of a style sheet. The brackets around the block of a rule are `opening` and `closing`, a
colour is given by its digits, and what has only one spelling, such as a number, is `verbatim`. -/
inductive Component where
  | blank
  | comment (inside : Text)
  | colon
  | semicolon
  | opening
  | closing
  | delimiter (c : Char)
  | name (name : Text)
  | string (value : Text)
  | url (url : Text)
  | colour (colour : Colour)
  | function (name : Text) (arguments : List Component)
  | verbatim (text : Text)
  deriving Repr

namespace Component

def isBlank : Component → Bool
  | .blank | .comment _ => true
  | _ => false

def isDelimiter : Component → Bool
  | .delimiter _ => true
  | _ => false

mutual

/-- A component in its shortest spelling. -/
def text : Component → Text
  | .blank => [' ']
  | .comment _ => []
  | .colon => [':']
  | .semicolon => [';']
  | .opening => ['{']
  | .closing => ['}']
  | .delimiter c => if c == '+' || c == '-' then [' ', c, ' '] else [c]
  | .name word => nameText word
  | .string value => stringText value
  | .url place => urlText place
  | .colour shade => shade.text
  | .function word arguments => nameText word ++ '(' :: textOfAll arguments ++ [')']
  | .verbatim spelling => spelling

def textOfAll : List Component → Text
  | [] => []
  | c :: rest => c.text ++ textOfAll rest

end

end Component

/-! ## Blanks -/

/-- Components without the blanks and comments at the start. -/
def dropBlanks (cs : List Component) : List Component := cs.dropWhile Component.isBlank

/-- Components without any blanks and comments. -/
def significant (cs : List Component) : List Component := cs.filter (!·.isBlank)

/-- Components without the blanks before and after delimiters. `apart` says whether a delimiter
comes right before; a comment is none. -/
def tighten (apart : Bool) : List Component → List Component
  | [] => []
  | .blank :: rest =>
    if apart || rest.head?.any Component.isDelimiter then tighten apart rest
    else .blank :: tighten false rest
  | c :: rest => c :: tighten c.isDelimiter rest

/-- Components without a blank at the start and at the end. A single component stays. -/
def trimEnds (cs : List Component) : List Component :=
  match cs with
  | .blank :: c :: rest => dropLast (c :: rest)
  | c :: d :: rest => c :: dropLast (d :: rest)
  | cs => cs
where
  dropLast (cs : List Component) : List Component :=
    match cs.getLast? with
    | some .blank => cs.dropLast
    | _ => cs

/-- Components without the blanks that separate nothing. -/
def tidy (cs : List Component) : List Component := trimEnds (tighten false cs)

/-! ## Reading -/

/-- The name of the function that a token opens. An unquoted url has one too. -/
def functionName? (t : Text) : Option Text :=
  let length := nameLength t
  if startsName t && (t.drop length).head? == some '(' then some (nameValue (t.take length))
  else none

/-- A token of blanks or a comment. The end of the sheet closes a comment too. -/
def blankOrComment (t : Text) : Component :=
  if t.head? == some '/' then
    let inside := t.drop 2
    .comment (if ['*', '/'].isSuffixOf inside then inside.take (inside.length - 2) else inside)
  else .blank

/-- A token that is no blank, bracket or sign, unless it is broken. Only where the sheet ends may a
string stay open, or a backslash stand for a character. -/
def plain? (t : Text) (ends : Bool) : Option Component :=
  match t with
  | [] => none
  | c :: rest =>
    if c == '"' || c == '\'' then
      let (value, closed) := stringValue c rest
      if closed || ends then some (.string value) else none
    else if (functionName? t).isSome then
      (urlValue? ((t.drop (nameLength t + 1)).dropWhile isSpace)).map .url
    else if startsName t && nameLength t == t.length && (t != ['\\'] || ends) then
      some (.name (nameValue t))
    else if c == '#' && !rest.isEmpty then
      let name := nameValue rest
      match Colour.ofDigits? name with
      | some colour => some (.colour colour)
      | none => some (.verbatim ('#' :: name.flatMap nameChar))
    else if rest.isEmpty && !c.isDigit then some (.delimiter c)
    else some (.verbatim t)

/-- A function. One that is called `url`, with no capitals, is a url in quotes. -/
def function? (name : Text) (arguments : List Component) : Option Component :=
  if name = ['u', 'r', 'l'] then
    match significant arguments with
    | [.string url] => some (.url url)
    | _ => none
  else some (.function name (tidy arguments))

/-- How far the components of a sheet have been read: what has been read of the innermost open
function, last first, and the open functions, innermost first, each with what stands before it. -/
structure Reading where
  components : List Component := []
  functions : List (Text × List Component) := []

namespace Reading

def push (r : Reading) (c : Component) : Reading := { r with components := c :: r.components }

def step (r : Reading) (t : Token) (ends : Bool) : Option Reading :=
  match t.role with
  | .blank => some (r.push (blankOrComment t.text))
  | .colon => some (r.push .colon)
  | .semicolon => some (r.push .semicolon)
  | .plain => (plain? t.text ends).map r.push
  | .opening .round => (functionName? t.text).map fun name =>
    ⟨[], (name, r.components) :: r.functions⟩
  | .closing .round =>
    match r.functions with
    | [] => none
    | (name, before) :: functions =>
      (function? name r.components.reverse).map fun f => ⟨f :: before, functions⟩
  | .opening .curly => if r.functions.isEmpty then some (r.push .opening) else none
  | .closing .curly => if r.functions.isEmpty then some (r.push .closing) else none
  | .opening .square | .closing .square => none

/-- What has been read, once the sheet is over. Functions that are open end with it. -/
def finish (components : List Component) :
    List (Text × List Component) → Option (List Component)
  | [] => some components.reverse
  | (name, before) :: functions =>
    (function? name components.reverse).bind fun f => finish (f :: before) functions

def run (r : Reading) : List Token → Option (List Component)
  | [] => finish r.components r.functions
  | t :: rest => (r.step t rest.isEmpty).bind fun r => r.run rest

end Reading

def components? (t : Text) : Option (List Component) := Reading.run {} (tokens t)

end StyleAssets.Css
