import StyleAssets.Text.Basic

/-!
# TOML values

* `TomlValue` — the values of a document; tables and arrays know how they were written, because
  that decides whether later lines may add to them.
-/

namespace StyleAssets

/-- How a table came to be: written as `{...}`, named by a header of its own, or only passed
through, by the header of another table or by a dotted key. -/
inductive TableForm where
  | inline
  | headed
  | implied
  | dotted
  deriving DecidableEq, Repr

/-- How an array came to be: written as `[...]`, or built up by `[[...]]` headers. -/
inductive ArrayForm where
  | inline
  | ofTables
  deriving DecidableEq, Repr

/-- A value of a document. The entries of tables keep their order; dates and times are checked but
not kept. -/
inductive TomlValue where
  | string (text : Text)
  | integer (n : Int)
  | float (x : Float)
  | boolean (b : Bool)
  | datetime
  | array (form : ArrayForm) (items : List TomlValue)
  | table (form : TableForm) (entries : List (Text × TomlValue))
  deriving Inhabited

abbrev TomlEntries := List (Text × TomlValue)

/-- One meaningful line of a document: `[path.key]`, `[[path.key]]` or `path.key = value`. -/
inductive TomlStatement where
  | header (path : List Text) (key : Text)
  | arrayHeader (path : List Text) (key : Text)
  | pair (path : List Text) (key : Text) (value : TomlValue)

end StyleAssets
