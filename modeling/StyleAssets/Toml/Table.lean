import StyleAssets.Toml.Value

/-!
# Building tables

The lines of a document add to one table. A line fails if it would define something twice.

* `TomlEntries.insert?` — adds a value under a dotted key.
* `TomlEntries.open?`, `TomlEntries.openArray?` — what a header does.
* `TomlEntries.ofStatements?` — the table of a whole document.
-/

namespace StyleAssets

namespace TomlEntries

def find? (key : Text) (entries : TomlEntries) : Option TomlValue := entries.lookup key

/-- The entries with the value of a key replaced. -/
def replace (key : Text) (value : TomlValue) (entries : TomlEntries) : TomlEntries :=
  entries.map fun entry => if entry.1 = key then (key, value) else entry

def add (key : Text) (value : TomlValue) (entries : TomlEntries) : TomlEntries :=
  entries ++ [(key, value)]

/-- Adds a value under a key. On the way only tables that dotted keys or passing headers have made
are entered, and the last of them must be one that dotted keys have made. -/
def insert? : List Text → Text → TomlValue → TomlEntries → Option TomlEntries
  | [], key, value, entries =>
    match entries.find? key with
    | none => some (entries.add key value)
    | some _ => none
  | part :: path, key, value, entries =>
    match entries.find? part with
    | none => do return entries.add part (.table .dotted (← insert? path key value []))
    | some (.table .dotted inner) => do
      return entries.replace part (.table .dotted (← insert? path key value inner))
    | some (.table .implied inner) =>
      if path = [] then none
      else do return entries.replace part (.table .implied (← insert? path key value inner))
    | some (.array .ofTables items) =>
      if path = [] then none
      else match items.getLast? with
        | some (.table form inner) => do
          let last := .table form (← insert? path key value inner)
          return entries.replace part (.array .ofTables (items.dropLast ++ [last]))
        | _ => none
    | some _ => none

/-- Changes the entries that a path of table names leads to. Missing tables are made; of an array
of tables the last is meant. -/
def within? (change : TomlEntries → Option TomlEntries) :
    List Text → TomlEntries → Option TomlEntries
  | [], entries => change entries
  | part :: path, entries =>
    match entries.find? part with
    | none => do return entries.add part (.table .implied (← within? change path []))
    | some (.table .inline _) => none
    | some (.table form inner) => do
      return entries.replace part (.table form (← within? change path inner))
    | some (.array .ofTables items) =>
      match items.getLast? with
      | some (.table form inner) => do
        let last := .table form (← within? change path inner)
        return entries.replace part (.array .ofTables (items.dropLast ++ [last]))
      | _ => none
    | some _ => none

/-- What the header of a table does. A table that was only passed through may be opened once; it
moves to the end. -/
def open? (key : Text) (entries : TomlEntries) : Option TomlEntries :=
  match entries.find? key with
  | none => some (entries.add key (.table .headed []))
  | some (.table .implied inner) =>
    some (TomlEntries.add key (.table .headed inner) (entries.filter (·.1 != key)))
  | some _ => none

/-- What the header of an array of tables does. -/
def openArray? (key : Text) (entries : TomlEntries) : Option TomlEntries :=
  let item : TomlValue := .table .headed []
  match entries.find? key with
  | none => some (entries.add key (.array .ofTables [item]))
  | some (.array .ofTables items) =>
    some (entries.replace key (.array .ofTables (items ++ [item])))
  | some _ => none

/-- Adds the lines of a document; `current` leads to the table that pairs belong to. -/
def addAll? : List TomlStatement → List Text → TomlEntries → Option TomlEntries
  | [], _, entries => some entries
  | .header path key :: rest, _, entries => do
    addAll? rest (path ++ [key]) (← within? (open? key) path entries)
  | .arrayHeader path key :: rest, _, entries => do
    addAll? rest (path ++ [key]) (← within? (openArray? key) path entries)
  | .pair path key value :: rest, current, entries => do
    addAll? rest current (← within? (insert? path key value) current entries)

def ofStatements? (statements : List TomlStatement) : Option TomlEntries :=
  addAll? statements [] []

/-- The table of the pairs between braces. -/
def ofPairs? (pairs : List ((List Text × Text) × TomlValue)) : Option TomlEntries :=
  pairs.foldlM (fun entries ((path, key), value) => insert? path key value entries) []

end TomlEntries

end StyleAssets
