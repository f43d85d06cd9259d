import StyleAssets.Css.Token

/-!
# Scanning for declarations

Finds the declarations of the rules of a style sheet in one pass over its tokens. A block, or the
whole sheet, falls into segments; a segment ends at `;`, at a `{}` block or where its block ends.
A segment of a rule with a colon in it is a declaration. Brackets within a segment are passed over.

* `Css.declarationIn?` — reads one segment.
* `Scanner.step` — takes one token.
* `Css.scan` — the declarations of a text.
-/

namespace StyleAssets.Css

/-- Blocks nested deeper than this are passed over. -/
def deepest : Nat := 64

/-- A declaration and where its value starts in the text, in bytes. -/
structure Found where
  property : Text
  value : Text
  start : Nat
  deriving DecidableEq, Repr

def Found.stop (f : Found) : Nat := f.start + Text.byteSize f.value

def textOf (tokens : List Token) : Text := tokens.flatMap Token.text

/-- Tokens without the blank ones at the end. -/
def dropLastBlanks (tokens : List Token) : List Token :=
  (tokens.reverse.dropWhile (·.role == .blank)).reverse

def startsWithAt (t : Text) : Bool := (Text.trim t).head? == some '@'

/-- The declaration in a segment that starts at byte `start` with a token that is not blank. The
value starts one byte after the end of what precedes the colon. -/
def declarationIn? (start : Nat) (segment : List Token) : Option Found :=
  let head := dropLastBlanks (segment.takeWhile (·.role != .colon))
  let property := Text.trim (textOf head)
  if segment.all (·.role != .colon) || property.isEmpty || startsWithAt property then none
  else
    let rest := (textOf (dropLastBlanks (segment.drop head.length))).drop 1
    let lead := rest.takeWhile Text.isBlank
    some ⟨property, Text.trim rest, start + Text.byteSize (textOf head) + 1 + Text.byteSize lead⟩

/-- The state of a scan between two tokens, after `offset` bytes. For each open block, innermost
first, `rules` says whether it lies in a rule; brackets in `passing` are passed over, innermost
first. The segment starts at byte `start` with a token that is not blank. Its tokens and the
declarations found stand last first. -/
structure Scanner where
  offset : Nat := 0
  rules : List Bool := []
  passing : List Bracket := []
  start : Nat := 0
  segment : List Token := []
  found : List Found := []
  tooDeep : Nat := 0

namespace Scanner

def inRule (s : Scanner) : Bool := s.rules.head?.getD false

/-- The declarations found once the segment is over. -/
def settled (s : Scanner) : List Found :=
  if s.inRule then (declarationIn? s.start s.segment.reverse).toList ++ s.found else s.found

def push (s : Scanner) (t : Token) : Scanner :=
  if s.segment.isEmpty then { s with start := s.offset, segment := [t] }
  else { s with segment := t :: s.segment }

/-- What to make of a token at the level of segments. -/
def take (s : Scanner) (t : Token) : Scanner :=
  match t.role with
  | .blank => if s.segment.isEmpty then s else s.push t
  | .semicolon => { s with found := s.settled, segment := [] }
  | .opening .curly =>
    if s.rules.length < deepest then
      let inRule := s.inRule || !startsWithAt (textOf s.segment.reverse)
      { s with rules := inRule :: s.rules, segment := [] }
    else { s with passing := [.curly], segment := [], tooDeep := s.tooDeep + 1 }
  | .closing .curly =>
    match s.rules with
    | [] => { s with segment := [] }
    | _ :: outer => { s with rules := outer, found := s.settled, segment := [] }
  | .opening bracket => { s.push ⟨.plain, t.text⟩ with passing := [bracket] }
  | _ => s.push t

/-- The brackets that are passed over after one more token within them. -/
def passed (innermost : Bracket) (outer : List Bracket) (t : Token) : List Bracket :=
  match t.role with
  | .opening bracket => bracket :: innermost :: outer
  | .closing bracket => if bracket = innermost then outer else innermost :: outer
  | _ => innermost :: outer

/-- What to make of a token within brackets that are passed over. -/
def pass (s : Scanner) (innermost : Bracket) (outer : List Bracket) (t : Token) : Scanner :=
  { (if s.segment.isEmpty then s else s.push ⟨.plain, t.text⟩) with
    passing := passed innermost outer t }

def step (s : Scanner) (t : Token) : Scanner :=
  let next := match s.passing with
    | innermost :: outer => s.pass innermost outer t
    | [] => s.take t
  { next with offset := s.offset + t.byteSize }

end Scanner

/-- The declarations of a style sheet in the order of the text, and the number of blocks that were
nested too deep to look into. -/
def scan (t : Text) : List Found × Nat :=
  let last := (tokens t).foldl Scanner.step {}
  (last.settled.reverse, last.tooDeep)

end StyleAssets.Css
