import StyleAssets.Toml.Value

/-!
# Lexical forms of TOML

Readers take what they can from the front of a text and give the rest, or fail.

* `Toml.lineEnd` — blanks, perhaps a comment, and the end of a line.
* `Toml.readString` — the four forms of strings.
* `Toml.readKey` — plain, quoted and dotted keys.
-/

namespace StyleAssets.Toml

/-- A reader takes something from the front of a text. -/
abbrev Reader (α : Type) := Text → Option (α × Text)

/-- How deep arrays and inline tables may be nested, and how many parts a key may have. -/
def deepest : Nat := 79

def isBlank (c : Char) : Bool := c == ' ' || c == '\t'

/-- The characters that need no escape anywhere: no controls but the tabulator. -/
def isPlain (c : Char) : Bool := c == '\t' || (' ' ≤ c && c ≤ '~') || '\x80' ≤ c

def skipBlanks (t : Text) : Text := t.dropWhile isBlank

/-- A line feed, or a carriage return with one. -/
def newline? : Text → Option Text
  | '\n' :: rest => some rest
  | '\r' :: '\n' :: rest => some rest
  | _ => none

def skipComment : Text → Text
  | '#' :: rest => rest.dropWhile isPlain
  | t => t

/-- What follows the end of a line: blanks, perhaps a comment, then a newline or nothing. -/
def lineEnd (t : Text) : Option Text :=
  match skipComment (skipBlanks t) with
  | [] => some []
  | rest => newline? rest

def skipSpace : Text → Text
  | '\r' :: '\n' :: rest => skipSpace rest
  | c :: rest => if isBlank c || c == '\n' then skipSpace rest else c :: rest
  | [] => []

/-- The text after blanks, newlines and comments. -/
def skipSpaceAndComments (t : Text) : Text :=
  match skipSpace t with
  | '#' :: rest =>
    let after := rest.dropWhile isPlain
    if after.length < t.length then skipSpaceAndComments after else after
  | rest => rest
termination_by t.length

def hexDigit? (c : Char) : Option Nat :=
  if c.isDigit then some (c.toNat - '0'.toNat)
  else if ('a' ≤ c && c ≤ 'f') || ('A' ≤ c && c ≤ 'F') then some (c.toLower.toNat - 'a'.toNat + 10)
  else none

/-- The character with the code that some hexadecimal digits write. -/
def codePoint? (digits : Text) : Option Char := do
  let code := (← digits.mapM hexDigit?).foldl (fun n d => n * 16 + d) 0
  if h : code.isValidChar then some (Char.ofNatAux code h) else none

/-- An escape after its backslash: its character, and how many characters it takes. -/
def escape? : Text → Option (Char × Nat)
  | 'b' :: _ => some ('\x08', 1)
  | 't' :: _ => some ('\t', 1)
  | 'n' :: _ => some ('\n', 1)
  | 'f' :: _ => some ('\x0c', 1)
  | 'r' :: _ => some ('\r', 1)
  | '"' :: _ => some ('"', 1)
  | '\\' :: _ => some ('\\', 1)
  | 'u' :: rest => fixed 4 rest
  | 'U' :: rest => fixed 8 rest
  | _ => none
where
  fixed (n : Nat) (rest : Text) : Option (Char × Nat) :=
    let digits := rest.take n
    if digits.length = n then (codePoint? digits).map (·, n + 1) else none

/-- A string on one line, after its opening quote. -/
def readLine (quote : Char) (escapes : Bool) : Reader Text
  | [] => none
  | c :: rest =>
    if c = quote then some ([], rest)
    else if escapes ∧ c = '\\' then
      match escape? rest with
      | some (value, taken) =>
        (readLine quote escapes (rest.drop taken)).map fun (t, after) => (value :: t, after)
      | none => none
    else if isPlain c then (readLine quote escapes rest).map fun (t, after) => (c :: t, after)
    else none
termination_by t => t.length
decreasing_by all_goals simp only [List.length_drop, List.length_cons]; omega

/-- After a backslash: the rest of a text that goes on after a broken line. -/
def continued? (t : Text) : Option Text := (newline? (skipBlanks t)).map skipSpace

/-- A string on several lines, after its three opening quotes. Up to two quotes may stand anywhere
within it, also right before the three closing ones. -/
def readLines (quote : Char) (escapes : Bool) : Reader Text
  | [] => none
  | c :: rest =>
    if c = quote then
      let more := (rest.takeWhile (· == quote)).length
      if more < 2 then (readLines quote escapes rest).map fun (t, after) => (c :: t, after)
      else
        let extra := min (more - 2) 2
        some (List.replicate extra quote, rest.drop (2 + extra))
    else if escapes ∧ c = '\\' then
      match continued? rest with
      | some after => if after.length ≤ rest.length then readLines quote escapes after else none
      | none =>
        match escape? rest with
        | some (value, taken) =>
          (readLines quote escapes (rest.drop taken)).map fun (t, after) => (value :: t, after)
        | none => none
    else if c = '\n' ∨ isPlain c then
      (readLines quote escapes rest).map fun (t, after) => (c :: t, after)
    else if c = '\r' then
      match rest with
      | '\n' :: rest => (readLines quote escapes rest).map fun (t, after) => ('\n' :: t, after)
      | _ => none
    else none
termination_by t => t.length
decreasing_by all_goals simp only [List.length_drop, List.length_cons] at *; omega

/-- The text after a newline that follows three opening quotes at once. -/
def dropFirstNewline (t : Text) : Text := (newline? t).getD t

/-- A string in any of its forms. -/
def readString : Reader Text
  | '"' :: '"' :: '"' :: rest => readLines '"' true (dropFirstNewline rest)
  | '"' :: rest => readLine '"' true rest
  | '\'' :: '\'' :: '\'' :: rest => readLines '\'' false (dropFirstNewline rest)
  | '\'' :: rest => readLine '\'' false rest
  | _ => none

def isKeyChar (c : Char) : Bool := c.isAlphanum || c == '-' || c == '_'

def readKeyPart : Reader Text
  | '"' :: rest => readLine '"' true rest
  | '\'' :: rest => readLine '\'' false rest
  | t =>
    match t.takeWhile isKeyChar with
    | [] => none
    | part => some (part, t.dropWhile isKeyChar)

/-- A key: parts with points between them, blanks around each. -/
def readKeyParts (t : Text) : Option (List Text × Text) :=
  match readKeyPart (skipBlanks t) with
  | none => none
  | some (part, rest) =>
    match skipBlanks rest with
    | '.' :: after =>
      if after.length < t.length then
        (readKeyParts after).map fun (parts, rest) => (part :: parts, rest)
      else none
    | rest => some ([part], rest)
termination_by t.length

/-- A key: the parts before the last, and the last. -/
def readKey : Reader (List Text × Text) := fun t => do
  let (parts, rest) ← readKeyParts t
  let last ← parts.getLast?
  if parts.length ≤ deepest then some ((parts.dropLast, last), rest) else none

end StyleAssets.Toml
