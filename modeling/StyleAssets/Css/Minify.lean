import StyleAssets.Css.Value

/-!
# Minified style sheets

A sheet of simple rules is minified by dropping comments, blanks and the last semicolons, and by
choosing the shorter spelling of urls and colours. Only comments with an exclamation mark stay, at
the start. Any other sheet is refused as a whole.

* `SimpleRule` — a selector of names and classes, and declarations without blocks in their values.
* `Css.rules?` — the rules of a sheet, if all of them are simple.
* `Css.notices` — the comments that stay.
* `Css.minify?` — the minified text.
-/

namespace StyleAssets.Css

/-- A declaration, ready to be written. One that is important overrules others. -/
structure SimpleDeclaration where
  property : Text
  value : Text
  important : Bool
  deriving DecidableEq, Repr

/-- A rule without rules inside it. -/
structure SimpleRule where
  selector : Text
  declarations : List SimpleDeclaration
  deriving DecidableEq, Repr

/-! ## Reading -/

/-- The rest of a selector: names and classes, side by side, after blanks or after commas. `started`
says whether a name or a class has just been read. -/
def selectorRest (started : Bool) : List Component → Option Text
  | [] => if started then some [] else none
  | .blank :: rest =>
    match rest with
    | [] | .blank :: _ | .delimiter ',' :: _ => selectorRest started rest
    | _ =>
      if started then (selectorRest false rest).map (' ' :: ·) else selectorRest false rest
  | .delimiter ',' :: rest =>
    if started then (selectorRest false rest).map (',' :: ·) else none
  | .delimiter '.' :: .name name :: rest =>
    (selectorRest true rest).map ('.' :: nameText name ++ ·)
  | .name name :: rest =>
    if started then none else (selectorRest true rest).map (nameText name ++ ·)
  | _ => none

def selector? (cs : List Component) : Option Text :=
  selectorRest false (cs.filter fun c => match c with
    | .comment _ => false
    | _ => true)

/-- The exclamation mark before the word that marks a declaration. -/
def isMark : Component → Bool
  | .delimiter '!' => true
  | _ => false

/-- Is a declaration marked as important? Nothing else may follow its value. -/
def importance? (afterValue : List Component) : Option Bool :=
  match significant afterValue with
  | [] => some false
  | [_, .name word] =>
    if word.map Char.toLower = "important".toList then some true else none
  | _ => none

/-- A declaration: a name, a colon and a value. -/
def declaration? (cs : List Component) : Option SimpleDeclaration :=
  match cs with
  | .name property :: rest =>
    match dropBlanks rest with
    | .colon :: rest =>
      let value := rest.takeWhile (!isMark ·)
      let text := declarationText property value
      (importance? (rest.drop value.length)).map fun important => ⟨text.1, text.2, important⟩
    | _ => none
  | _ => none

def isSemicolon : Component → Bool
  | .semicolon => true
  | _ => false

def isOpening : Component → Bool
  | .opening => true
  | _ => false

def isClosing : Component → Bool
  | .closing => true
  | _ => false

/-- The declarations of a block, which holds no other block. -/
def declarations? (block : List Component) : Option (List SimpleDeclaration) :=
  if block.any isOpening then none
  else (((block.splitOnP isSemicolon).map dropBlanks).filter (!·.isEmpty)).mapM declaration?

/-- The rules of a sheet, if all of them are simple. A block that stays open ends with the sheet. -/
def rules? (cs : List Component) : Option (List SimpleRule) :=
  match dropBlanks cs with
  | [] => some []
  | first :: more =>
    let head := (first :: more).takeWhile (!isOpening ·)
    match (first :: more).drop head.length with
    | [] => none
    | _ :: body =>
      let block := body.takeWhile (!isClosing ·)
      let after := (body.drop block.length).tail
      if after.length < cs.length then do
        let rule := ⟨← selector? head, ← declarations? block⟩
        return rule :: (← rules? after)
      else none
termination_by cs.length
decreasing_by assumption

/-- The comments to keep: those that start with an exclamation mark, up to the first part of the
sheet that is neither one of these nor a blank. -/
def notices : List Component → List Text
  | .blank :: rest => notices rest
  | .comment ('!' :: inside) :: rest => ('!' :: inside) :: notices rest
  | _ => []

/-! ## Writing -/

/-- A comment on a line of its own. -/
def noticeText (inside : Text) : Text := '/' :: '*' :: inside ++ ['*', '/', '\n']

def SimpleDeclaration.text (d : SimpleDeclaration) : Text :=
  d.property ++ ':' :: d.value ++ if d.important then "!important".toList else []

/-- A rule on one line. What is important comes last. -/
def SimpleRule.text (r : SimpleRule) : Text :=
  let (last, first) := r.declarations.partition (·.important)
  r.selector ++ '{' :: [';'].intercalate ((first ++ last).map SimpleDeclaration.text) ++ ['}']

/-- A sheet minified, if all its rules are simple. -/
def minify? (t : Text) : Option Text := do
  let cs ← components? t
  return (notices cs).flatMap noticeText ++ (← rules? cs).flatMap SimpleRule.text

end StyleAssets.Css
