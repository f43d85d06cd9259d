import StyleAssets.Text.Basic

/-!
# Lexemes of style sheets

How far each lexical form of CSS reaches. Every function here gives a number of characters, counted
from the front of the text it is given; a text that ends early closes whatever is open.

* `Css.nameLength`, `Css.nameValue` — names with escapes, and the text that a name stands for.
* `Css.stringLength`, `Css.commentLength`, `Css.numberLength` — the other simple forms.
* `Css.urlLength?` — the rest of an unquoted url, if a url is not quoted.
-/

namespace StyleAssets.Css

def isNewline (c : Char) : Bool := c == '\n' || c == '\r' || c == '\x0c'

/-- The blanks of the format; fewer than those of Unicode. -/
def isSpace (c : Char) : Bool := c == ' ' || c == '\t' || isNewline c

/-- Letters, `_`, NUL and everything beyond ASCII may start a name. -/
def isNameStart (c : Char) : Bool := c.isAlpha || c == '_' || c == '\x00' || '\x80' ≤ c

def isNameChar (c : Char) : Bool := isNameStart c || c.isDigit || c == '-'

def isHexDigit (c : Char) : Bool := c.isDigit || ('a' ≤ c && c ≤ 'f') || ('A' ≤ c && c ≤ 'F')

/-- Control characters that no url may hold. -/
def isUnprintable (c : Char) : Bool :=
  ('\x01' ≤ c && c ≤ '\x08') || c == '\x0b' || ('\x0e' ≤ c && c ≤ '\x1f') || c == '\x7f'

def startsLine : Text → Bool
  | c :: _ => isNewline c
  | [] => false

/-- One blank at the front, where a carriage return and a line feed count as one. -/
def spaceLength : Text → Nat
  | '\r' :: '\n' :: _ => 2
  | c :: _ => if isSpace c then 1 else 0
  | [] => 0

/-- The hexadecimal digits of an escape, six at most. -/
def escapeDigits (t : Text) : Text := (t.take 6).takeWhile isHexDigit

/-- An escape, after its backslash. One blank after hexadecimal digits belongs to them. -/
def escapeLength (t : Text) : Nat :=
  match escapeDigits t with
  | [] => min 1 t.length
  | digits => digits.length + spaceLength (t.drop digits.length)

def hexDigitValue (c : Char) : Nat :=
  if c.isDigit then c.toNat - '0'.toNat else c.toLower.toNat - 'a'.toNat + 10

/-- The character that a character stands for where it is not escaped. -/
def charValue (c : Char) : Char := if c == '\x00' then '\uFFFD' else c

/-- The character that an escape stands for, after its backslash. -/
def escapeValue (t : Text) : Char :=
  match escapeDigits t, t with
  | [], c :: _ => charValue c
  | [], [] => '\uFFFD'
  | digits, _ =>
    let code := digits.foldl (fun n c => n * 16 + hexDigitValue c) 0
    if h : code ≠ 0 ∧ code.isValidChar then Char.ofNatAux code h.2 else '\uFFFD'

def nameLength : Text → Nat
  | [] => 0
  | c :: t =>
    if isNameChar c then nameLength t + 1
    else if c == '\\' && !startsLine t then
      nameLength (t.drop (escapeLength t)) + escapeLength t + 1
    else 0
termination_by t => t.length
decreasing_by all_goals simp only [List.length_drop, List.length_cons]; omega

def nameValue : Text → Text
  | [] => []
  | c :: t =>
    if c == '\\' then escapeValue t :: nameValue (t.drop (escapeLength t))
    else charValue c :: nameValue t
termination_by t => t.length
decreasing_by all_goals simp only [List.length_drop, List.length_cons]; omega

/-- Could a name start here? -/
def startsName : Text → Bool
  | '-' :: '\\' :: t => !startsLine t
  | '-' :: c :: _ => isNameStart c || c == '-'
  | '\\' :: t => !startsLine t
  | c :: _ => isNameStart c
  | [] => false

/-- A string, after its opening quote. A bare newline ends it and stays outside. -/
def stringLength (quote : Char) : Text → Nat
  | [] => 0
  | c :: t =>
    if c == quote then 1
    else if isNewline c then 0
    else if c == '\\' then
      let skipped := if startsLine t then spaceLength t else escapeLength t
      stringLength quote (t.drop skipped) + min skipped t.length + 1
    else stringLength quote t + 1
termination_by t => t.length
decreasing_by all_goals simp only [List.length_drop, List.length_cons]; omega

def commentLength : Text → Nat
  | [] => 0
  | '*' :: '/' :: _ => 2
  | _ :: t => commentLength t + 1

def digitsLength (t : Text) : Nat := (t.takeWhile Char.isDigit).length

/-- A fraction: a point and at least one digit. -/
def fractionLength : Text → Nat
  | '.' :: t => if digitsLength t = 0 then 0 else digitsLength t + 1
  | _ => 0

def signLength : Text → Nat
  | c :: _ => if c == '+' || c == '-' then 1 else 0
  | [] => 0

/-- An exponent: `e`, perhaps a sign, and at least one digit. -/
def exponentLength : Text → Nat
  | c :: t =>
    if c == 'e' || c == 'E' then
      match digitsLength (t.drop (signLength t)) with
      | 0 => 0
      | digits => signLength t + digits + 1
    else 0
  | [] => 0

def startsNumber (t : Text) : Bool :=
  let rest := t.drop (signLength t)
  digitsLength rest != 0 || fractionLength rest != 0

/-- What follows a number and belongs to it: a percent sign or the name of a unit. -/
def unitLength : Text → Nat
  | '%' :: _ => 1
  | t => if startsName t then nameLength t else 0

def numberLength (t : Text) : Nat :=
  let sign := signLength t
  let whole := sign + digitsLength (t.drop sign)
  let mantissa := whole + fractionLength (t.drop whole)
  let plain := mantissa + exponentLength (t.drop mantissa)
  plain + unitLength (t.drop plain)

/-- What is left of a broken url: everything up to the next `)` that is not escaped. -/
def brokenUrlLength : Text → Nat
  | [] => 0
  | ')' :: _ => 1
  | '\\' :: ')' :: t => brokenUrlLength t + 2
  | '\\' :: '\\' :: t => brokenUrlLength t + 2
  | _ :: t => brokenUrlLength t + 1

/-- The rest of a url after a blank inside it: only blanks may follow. -/
def urlEndLength (t : Text) : Nat :=
  let blanks := (t.takeWhile isSpace).length
  match t.drop blanks with
  | [] => blanks
  | ')' :: _ => blanks + 1
  | _ :: rest => blanks + 1 + brokenUrlLength rest

/-- An unquoted url from its first character on. -/
def urlBodyLength : Text → Nat
  | [] => 0
  | c :: t =>
    if c == ')' then 1
    else if isSpace c then urlEndLength t + 1
    else if isUnprintable c || c == '"' || c == '\'' || c == '(' then brokenUrlLength t + 1
    else if c == '\\' then
      if startsLine t then brokenUrlLength t + 1
      else urlBodyLength (t.drop (escapeLength t)) + escapeLength t + 1
    else urlBodyLength t + 1
termination_by t => t.length
decreasing_by all_goals simp only [List.length_drop, List.length_cons]; omega

/-- The rest of a url after `url(`, unless it is quoted. -/
def urlLength? (t : Text) : Option Nat :=
  let blanks := (t.takeWhile isSpace).length
  match t.drop blanks with
  | c :: rest => if c == '"' || c == '\'' then none else some (blanks + urlBodyLength (c :: rest))
  | [] => some blanks

end StyleAssets.Css
