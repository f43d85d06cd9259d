import StyleAssets.Css.Lexeme

/-!
# Tokens of style sheets

A style sheet is cut into tokens, told apart only as far as the structure of blocks and
declarations needs.

* `Css.tokens` — the tokens of a text; `text_tokens` says that nothing is lost or reordered.
-/

namespace StyleAssets.Css

inductive Bracket where
  | round
  | square
  | curly
  deriving DecidableEq, Repr

/-- The part that a token plays. Comments are blanks, and a function name with its parenthesis opens
a block. -/
inductive Role where
  | blank
  | colon
  | semicolon
  | opening (bracket : Bracket)
  | closing (bracket : Bracket)
  | plain
  deriving DecidableEq, Repr

/-- A token with the text that it covers. -/
structure Token where
  role : Role
  text : Text
  deriving DecidableEq, Repr

def Token.byteSize (t : Token) : Nat := Text.byteSize t.text

/-- A name at the front of a text: a word, a function or an unquoted url. -/
def nameToken (t : Text) : Role × Nat :=
  let length := nameLength t
  match t.drop length with
  | '(' :: rest =>
    if (nameValue (t.take length)).map Char.toLower = ['u', 'r', 'l'] then
      match urlLength? rest with
      | some more => (.plain, length + 1 + more)
      | none => (.opening .round, length + 1)
    else (.opening .round, length + 1)
  | _ => (.plain, length)

/-- The tokens of one character that bear on the structure. -/
def single? : Char → Option Role
  | ':' => some .colon
  | ';' => some .semicolon
  | '(' => some (.opening .round)
  | '[' => some (.opening .square)
  | '{' => some (.opening .curly)
  | ')' => some (.closing .round)
  | ']' => some (.closing .square)
  | '}' => some (.closing .curly)
  | _ => none

/-- A word, a number or some other plain token that starts with `c`. -/
def plainFront (c : Char) (t : Text) : Role × Nat :=
  if c == '#' then (.plain, nameLength t)
  else if c == '@' then (.plain, if startsName t then nameLength t else 0)
  else if c == '<' && ['!', '-', '-'].isPrefixOf t then (.plain, 3)
  else if startsNumber (c :: t) then (.plain, numberLength (c :: t) - 1)
  else if c == '-' && ['-', '>'].isPrefixOf t then (.plain, 2)
  else if startsName (c :: t) then ((nameToken (c :: t)).1, (nameToken (c :: t)).2 - 1)
  else (.plain, 0)

/-- The token that starts with `c`, and how many characters of `t` belong to it. -/
def front (c : Char) (t : Text) : Role × Nat :=
  if isSpace c then (.blank, (t.takeWhile isSpace).length)
  else if c == '"' || c == '\'' then (.plain, stringLength c t)
  else if c == '/' && t.head? == some '*' then (.blank, commentLength t.tail + 1)
  else match single? c with
    | some role => (role, 0)
    | none => plainFront c t

def tokens : Text → List Token
  | [] => []
  | c :: t => ⟨(front c t).1, c :: t.take (front c t).2⟩ :: tokens (t.drop (front c t).2)
termination_by t => t.length
decreasing_by simp only [List.length_drop, List.length_cons]; omega

/-- Tokens cover their text without gaps. -/
theorem text_tokens (t : Text) : (tokens t).flatMap Token.text = t := by
  fun_induction tokens t with
  | case1 => rfl
  | case2 c t ih => simp [ih]

end StyleAssets.Css
