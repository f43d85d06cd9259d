import StyleAssets.Css.Scan
import StyleAssets.FileTree.Lookup
import StyleAssets.Log

/-!
# Stylesheets

* `Declaration` — a property and its value.
* `StyleTree` — anything with a source file and an ordered walk over declarations, in which their
  values can be replaced.
* `Stylesheet` — a text with the declarations found in it; `Stylesheet.render` puts changed values
  back and keeps every other character.
-/

namespace StyleAssets

/-- One `property: value` pair. -/
structure Declaration where
  property : Text
  value : Text
  deriving DecidableEq, Repr

/-- Visits declarations one after the other. The visitor sees each of them, gives the value that it
has from then on, and carries a state along. -/
def Declaration.walk {τ : Type} (visit : Declaration → StateM τ Text) (all : List Declaration) :
    StateM τ (List Declaration) :=
  all.mapM fun d => do
    let value ← visit d
    return { d with value }

/-- Writes a declaration down, last first, and keeps its value. -/
def Declaration.note (d : Declaration) : StateM (List Declaration) Text := do
  modify (d :: ·)
  return d.value

/-- Ordered access to the declarations of one sheet, which come from one file. -/
class StyleTree (σ : Type) where
  sourceFile : σ → Path
  walk {τ : Type} : (Declaration → StateM τ Text) → σ → StateM τ σ

/-- The declarations that a walk meets, in order. -/
def StyleTree.declarations {σ : Type} [StyleTree σ] (sheet : σ) : List Declaration :=
  ((StyleTree.walk Declaration.note sheet).run []).2.reverse

/-- Every walk visits the same declarations in the same order, and changes only their values. -/
class LawfulStyleTree (σ : Type) [StyleTree σ] : Prop where
  declarations_walk {τ : Type} (visit : Declaration → StateM τ Text) (sheet : σ) (state : τ) :
    StyleTree.declarations ((StyleTree.walk visit sheet).run state).1 =
      ((Declaration.walk visit (StyleTree.declarations sheet)).run state).1
  state_walk {τ : Type} (visit : Declaration → StateM τ Text) (sheet : σ) (state : τ) :
    ((StyleTree.walk visit sheet).run state).2 =
      ((Declaration.walk visit (StyleTree.declarations sheet)).run state).2

/-- Declarations without a text around them. -/
structure DeclarationList where
  sourceFile : Path
  declarations : List Declaration
  deriving DecidableEq, Repr

instance : StyleTree DeclarationList where
  sourceFile := DeclarationList.sourceFile
  walk visit s := do
    let declarations ← Declaration.walk visit s.declarations
    return { s with declarations }

/-- A declaration of a text, as found there, with its present value. -/
structure Located where
  found : Css.Found
  value : Text
  deriving DecidableEq, Repr

def Located.declaration (l : Located) : Declaration := ⟨l.found.property, l.value⟩

def Located.walk {τ : Type} (visit : Declaration → StateM τ Text) (all : List Located) :
    StateM τ (List Located) :=
  all.mapM fun l => do
    let value ← visit l.declaration
    return { l with value }

/-- A text as it was read and the declarations found in it. Those in `tooDeep` blocks, which are
nested too deep, are not looked for. -/
structure Stylesheet where
  sourceFile : Path
  text : Text
  located : List Located
  tooDeep : Nat
  deriving DecidableEq, Repr

namespace Stylesheet

def parse (sourceFile : Path) (text : Text) : Stylesheet :=
  let (found, tooDeep) := Css.scan text
  ⟨sourceFile, text, found.map fun f => ⟨f, f.value⟩, tooDeep⟩

def warnings (s : Stylesheet) : Log :=
  let limit := toString Css.deepest
  .replicate s.tooDeep (.warning s!"blocks nested deeper than {limit} levels are left untouched")

def declarations (s : Stylesheet) : List Declaration := s.located.map Located.declaration

/-- Puts changed values into `rest`, the text from byte `cursor` on. -/
def splice (rest : Text) (cursor : Nat) : List Located → Text
  | [] => rest
  | l :: more =>
    if l.value = l.found.value then splice rest cursor more
    else
      Text.takeBytes (l.found.start - cursor) rest ++ l.value ++
        splice (Text.dropBytes (l.found.stop - cursor) rest) l.found.stop more

def render (s : Stylesheet) : Text := splice s.text 0 s.located

/-- The sheet with the value of one declaration replaced, if there is one at `index`. -/
def setValue (s : Stylesheet) (index : Nat) (value : Text) : Stylesheet :=
  { s with located := s.located.modify index fun l => { l with value } }

/-- The stylesheet in a file. Its source path is the location of the file. -/
def read (d : Disk) (p : Path) : Except FileError Stylesheet := do
  let text ← d.readText p
  return parse (d.normalize p) text

end Stylesheet

instance : StyleTree Stylesheet where
  sourceFile := Stylesheet.sourceFile
  walk visit s := do
    let located ← Located.walk visit s.located
    return { s with located }

end StyleAssets
