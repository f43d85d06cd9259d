import StyleAssets.Toml.Number
import StyleAssets.Toml.Table

/-!
# TOML documents

* `Toml.readValue` — one value.
* `Toml.parse?` — the table that a document writes, if it is well-formed.
-/

namespace StyleAssets.Toml

/-- The items of an array, after its bracket or a comma; blanks, newlines and comments may stand
around each, and a comma may stand after the last. -/
def readItems (readItem : Reader TomlValue) (t : Text) : Option (List TomlValue × Text) :=
  match skipSpaceAndComments t with
  | ']' :: rest => some ([], rest)
  | start =>
    match readItem start with
    | none => none
    | some (item, rest) =>
      match skipSpaceAndComments rest with
      | ']' :: rest => some ([item], rest)
      | ',' :: after =>
        if after.length < t.length then
          (readItems readItem after).map fun (items, rest) => (item :: items, rest)
        else none
      | _ => none
termination_by t.length

def readPair (readItem : Reader TomlValue) : Reader ((List Text × Text) × TomlValue) := fun t => do
  let (key, rest) ← readKey t
  let (value, rest) ← readItem (skipBlanks (← expect '=' rest))
  return ((key, value), skipBlanks rest)

/-- The pairs of an inline table, from the first or after a comma. -/
def readPairs (readItem : Reader TomlValue) (t : Text) :
    Option (List ((List Text × Text) × TomlValue) × Text) :=
  match readPair readItem t with
  | none => none
  | some (pair, rest) =>
    match rest with
    | '}' :: rest => some ([pair], rest)
    | ',' :: after =>
      if after.length < t.length then
        (readPairs readItem after).map fun (pairs, rest) => (pair :: pairs, rest)
      else none
    | _ => none
termination_by t.length

/-- The inline table after its opening brace. -/
def readInlineTable (readItem : Reader TomlValue) : Reader TomlValue := fun t =>
  match skipBlanks t with
  | '}' :: rest => some (.table .inline [], rest)
  | start => do
    let (pairs, rest) ← readPairs readItem start
    return (.table .inline (← TomlEntries.ofPairs? pairs), rest)

/-- A value in which brackets are nested at most `depth` deep. -/
def readValueTo (depth : Nat) : Reader TomlValue := fun t =>
  match t, depth with
  | '[' :: rest, depth + 1 =>
    (readItems (readValueTo depth) rest).map fun (items, rest) => (.array .inline items, rest)
  | '{' :: rest, depth + 1 => readInlineTable (readValueTo depth) rest
  | '[' :: _, 0 => none
  | '{' :: _, 0 => none
  | 't' :: 'r' :: 'u' :: 'e' :: rest, _ => some (.boolean true, rest)
  | 'f' :: 'a' :: 'l' :: 's' :: 'e' :: rest, _ => some (.boolean false, rest)
  | c :: _, _ =>
    if c = '"' ∨ c = '\'' then (readString t).map fun (text, rest) => (.string text, rest)
    else (readDatetime t).or (readNumber t)
  | [], _ => none

def readValue : Reader TomlValue := readValueTo deepest

/-- A header with the given brackets around its key. -/
def readHeader (brackets : Nat) (t : Text) : Option ((List Text × Text) × Text) := do
  let (key, rest) ← readKey t
  if rest.take brackets = List.replicate brackets ']' then
    return (key, ← lineEnd (rest.drop brackets))
  else none

def readStatement : Reader TomlStatement := fun t =>
  match t with
  | '[' :: '[' :: rest => do
    let ((path, key), rest) ← readHeader 2 rest
    return (.arrayHeader path key, rest)
  | '[' :: rest => do
    let ((path, key), rest) ← readHeader 1 rest
    return (.header path key, rest)
  | _ => do
    let (((path, key), value), rest) ← readPair readValue t
    return (.pair path key value, ← lineEnd rest)

/-- The lines of a document. -/
def readStatements (t : Text) : Option (List TomlStatement) :=
  match skipBlanks t with
  | [] => some []
  | start =>
    match lineEnd start with
    | some rest => if rest.length < t.length then readStatements rest else none
    | none =>
      match readStatement start with
      | some (statement, rest) =>
        if rest.length < t.length then (readStatements rest).map (statement :: ·) else none
      | none => none
termination_by t.length

/-- The table that a document writes. A byte order mark at its start says nothing. -/
def parse? (t : Text) : Option TomlEntries := do
  let body := match t with
    | '\uFEFF' :: rest => rest
    | _ => t
  TomlEntries.ofStatements? (← readStatements body)

end StyleAssets.Toml
