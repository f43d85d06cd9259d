import StyleAssets.Css.Lexeme

/-!
# Spelling

Names, strings and urls can be spelled in many ways: what a spelling stands for, and the spelling in
which a text is written.

* `Css.stringValue`, `Css.urlValue?` — what a string or an unquoted url stands for.
* `Css.nameText`, `Css.stringText`, `Css.urlText` — a text as a name, a string or a url.
-/

namespace StyleAssets.Css

/-! ## Reading -/

/-- What a string stands for, after its opening quote, and whether it is closed. An escaped newline
stands for nothing. -/
def stringValue (quote : Char) : Text → Text × Bool
  | [] => ([], false)
  | c :: t =>
    if c == quote then ([], true)
    else if c == '\\' then
      if t.isEmpty then ([], false)
      else if startsLine t then stringValue quote (t.drop (spaceLength t))
      else
        let (value, closed) := stringValue quote (t.drop (escapeLength t))
        (escapeValue t :: value, closed)
    else
      let (value, closed) := stringValue quote t
      (charValue c :: value, closed)
termination_by t => t.length
decreasing_by all_goals simp only [List.length_drop, List.length_cons]; omega

/-- What an unquoted url stands for, from its first character on, unless it is broken. -/
def urlValue? : Text → Option Text
  | [] => some []
  | c :: t =>
    if c == ')' then some []
    else if isSpace c then
      match t.dropWhile isSpace with
      | [] => some []
      | closing :: _ => if closing == ')' then some [] else none
    else if isUnprintable c || c == '"' || c == '\'' || c == '(' then none
    else if c == '\\' then
      if startsLine t then none
      else (urlValue? (t.drop (escapeLength t))).map (escapeValue t :: ·)
    else (urlValue? t).map (charValue c :: ·)
termination_by t => t.length
decreasing_by all_goals simp only [List.length_drop, List.length_cons]; omega

/-! ## Writing -/

/-- A character by its code point, with the blank that ends it. -/
def codeEscape (c : Char) : Text := '\\' :: Nat.toDigits 16 c.toNat ++ [' ']

def isControl (c : Char) : Bool := c ≤ '\x1f' || c == '\x7f'

def nameChar (c : Char) : Text :=
  if c.isAlphanum || c == '_' || c == '-' || '\x80' ≤ c then [c]
  else if isControl c then codeEscape c
  else ['\\', c]

/-- The first character of a name, where a digit would start a number. -/
def firstNameChar (c : Char) : Text := if c.isDigit then codeEscape c else nameChar c

def nameText : Text → Text
  | [] => []
  | ['-'] => ['\\', '-']
  | '-' :: '-' :: t => '-' :: '-' :: t.flatMap nameChar
  | '-' :: c :: t => '-' :: firstNameChar c ++ t.flatMap nameChar
  | c :: t => firstNameChar c ++ t.flatMap nameChar

def stringChar (c : Char) : Text :=
  if isControl c then codeEscape c
  else if c == '"' || c == '\\' then ['\\', c]
  else [c]

def stringText (t : Text) : Text := '"' :: t.flatMap stringChar ++ ['"']

def urlChar (c : Char) : Text :=
  if isControl c || c == ' ' then codeEscape c
  else if c == '"' || c == '\'' || c == '(' || c == ')' || c == '\\' then ['\\', c]
  else [c]

/-- A text as a url without quotes, unless these make it shorter. -/
def urlText (url : Text) : Text :=
  let plain := url.flatMap urlChar
  let quoted := stringText url
  let shorter := if Text.byteSize quoted < Text.byteSize plain then quoted else plain
  ['u', 'r', 'l', '('] ++ shorter ++ [')']

end StyleAssets.Css
