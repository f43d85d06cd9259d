import StyleAssets.Text.Utf8

/-!
# Paths

A path is a sequence of bytes in which `/` separates components. Its meaning is the list of its
components: repeated separators and inner `.` do not count. Sameness (`Path.Same`) and order
(`Path.le`) look at components only; the bytes themselves are kept because messages show them.

* `Path.components` — the meaning of a path.
* `Path.join`, `Path.parent?`, `Path.fileName?`, `Path.extension?` — the usual operations.
* `Path.ofComponents` — the plainest path with given components.
-/

namespace StyleAssets

/-- The name of one directory entry. -/
abbrev Name := Bytes

/-- One step of a path. -/
inductive Component where
  | root
  | current
  | parent
  | normal (name : Name)
  deriving DecidableEq, Repr

/-- A path as it was written. -/
structure Path where
  bytes : Bytes
  deriving DecidableEq, Repr, Inhabited

namespace Component

/-- Keys in the order of components: the root, `.`, `..`, then names by their bytes. -/
def sortKey : Component → List Nat
  | root => [0]
  | current => [1]
  | parent => [2]
  | normal name => 3 :: name.map UInt8.toNat

def before (c d : Component) : Bool := List.lex c.sortKey d.sortKey fun m n => m < n

def bytes : Component → Bytes
  | root => [0x2F]
  | current => [0x2E]
  | parent => [0x2E, 0x2E]
  | normal name => name

end Component

namespace Path

def separator : UInt8 := 0x2F

def dot : UInt8 := 0x2E

def ofText (t : Text) : Path := ⟨Utf8.encode t⟩

def ofString (s : String) : Path := ofText s.toList

def text (p : Path) : Text := Utf8.lossy p.bytes

/-- The text of a path, for messages. -/
def display (p : Path) : String := String.ofList p.text

/-- The pieces between separators, empty ones included. -/
def segments (p : Path) : List Name := p.bytes.splitOn separator

def isAbsolute (p : Path) : Bool := p.bytes.head? == some separator

/-- There is no separator within the pieces between separators. -/
theorem not_mem_of_mem_splitOn {b : UInt8} {bytes segment : Bytes}
    (h : segment ∈ bytes.splitOn b) : b ∉ segment := by
  induction bytes generalizing segment with
  | nil =>
    obtain rfl : segment = [] := by simpa using h
    exact List.not_mem_nil
  | cons c bytes ih =>
    rw [List.splitOn_cons_eq_if_modifyHead] at h
    split at h
    · obtain rfl | h := List.mem_cons.1 h
      · exact List.not_mem_nil
      · exact ih h
    · rename_i hne
      cases hsplit : bytes.splitOn b with
      | nil => exact absurd hsplit (List.splitOn_ne_nil b bytes)
      | cons first rest =>
        rw [hsplit] at h ih
        obtain rfl | h := List.mem_cons.1 h
        · intro hmem
          obtain rfl | hmem := List.mem_cons.1 hmem
          · exact hne (beq_self_eq_true _)
          · exact ih List.mem_cons_self hmem
        · exact ih (List.mem_cons_of_mem _ h)

/-- The component that a piece of a path stands for, if it stands for one. -/
def component? (segment : Name) : Option Component :=
  if segment = [] ∨ segment = [dot] then none
  else if segment = [dot, dot] then some .parent
  else some (.normal segment)

/-- The components of a path. A `.` counts only at the start of a relative path. -/
def components (p : Path) : List Component :=
  let steps := p.segments.filterMap component?
  if p.isAbsolute then .root :: steps
  else if p.segments.head? = some [dot] then .current :: steps
  else steps

/-- A step that a piece of a path stands for. -/
def IsStep : Component → Prop
  | .parent => True
  | .normal name => name ≠ [] ∧ name ≠ [dot] ∧ name ≠ [dot, dot] ∧ separator ∉ name
  | .root | .current => False

instance : DecidablePred IsStep
  | .parent => .isTrue trivial
  | .normal name => inferInstanceAs
      (Decidable (name ≠ [] ∧ name ≠ [dot] ∧ name ≠ [dot, dot] ∧ separator ∉ name))
  | .root => .isFalse id
  | .current => .isFalse id

/-- Two paths are the same if their components are. -/
def Same (p q : Path) : Prop := p.components = q.components

instance (p q : Path) : Decidable (Same p q) :=
  inferInstanceAs (Decidable (p.components = q.components))

/-- The order of paths: component by component. -/
def le (p q : Path) : Bool := !List.lex q.components p.components Component.before

/-- The path `q` seen from `p`; an absolute `q` stands for itself. -/
def join (p q : Path) : Path :=
  if q.isAbsolute then q
  else if p.bytes = [] ∨ p.bytes.getLast? = some separator then ⟨p.bytes ++ q.bytes⟩
  else ⟨p.bytes ++ separator :: q.bytes⟩

/-- The pieces of a path with those at its end dropped that stand for no component. -/
def significant (p : Path) (segments : List Name) : List Name :=
  let insignificant (segment : Name) : Bool := segment == [] || segment == [dot]
  match (segments.reverse.dropWhile insignificant).reverse with
  | [] => if !p.isAbsolute && segments.head? == some [dot] then [[dot]] else []
  | kept => kept

/-- The path without its last component; the root and the empty path have no parent. -/
def parent? (p : Path) : Option Path :=
  match p.significant p.segments with
  | [] => none
  | kept =>
    match p.significant kept.dropLast with
    | [] => some ⟨if p.isAbsolute then [separator] else []⟩
    | rest => some ⟨[separator].intercalate rest⟩

/-- A path, its parent, the parent of that, and so on. -/
def ancestors (p : Path) : List Path :=
  match p.parent? with
  | some parent => p :: if parent.bytes.length < p.bytes.length then parent.ancestors else []
  | none => [p]
termination_by p.bytes.length

/-- The last component of a path, if it is a name. -/
def fileName? (p : Path) : Option Name :=
  match p.components.getLast? with
  | some (.normal name) => some name
  | _ => none

/-- What follows the last `.` of the file name; a name whose only `.` comes first has none. -/
def extension? (p : Path) : Option Name := do
  let name ← p.fileName?
  let ending := name.reverse.takeWhile (· != dot)
  match name.reverse.drop ending.length with
  | _ :: _ :: _ => some ending.reverse
  | _ => none

/-- The plainest path with the given components, a root only at the start. -/
def ofComponents : List Component → Path
  | .root :: steps => ⟨separator :: [separator].intercalate (steps.map Component.bytes)⟩
  | steps => ⟨[separator].intercalate (steps.map Component.bytes)⟩

end Path

end StyleAssets
