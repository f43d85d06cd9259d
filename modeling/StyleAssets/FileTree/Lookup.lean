import StyleAssets.FileTree.Basic
import StyleAssets.Path.Resolve

/-!
# Looking up paths

A path leads to a location of a file tree by taking its steps one after the other, from the root
or from the working directory. Symbolic links on the way are followed, a limited number of times.
The working directory may have been removed: then it is an empty directory that has no path, and
`..` leads out of it to where it once was.

* `FileTree.follow` — where some steps lead.
* `Disk` — a file tree seen by a user from a working directory.
* `Disk.find`, `Disk.findLink` — what a path denotes, with or without following a last link.
* `Disk.read`, `Disk.contentOf` — what the file holds that a path denotes, if the user may read it,
  and whoever may.
* `Disk.normalize` — the location of a path as a path, or its lexical form if it denotes nothing.
-/

namespace StyleAssets

/-- Why an operation on files fails. -/
inductive FileError where
  | notFound
  | notDirectory
  | isDirectory
  | alreadyExists
  | nameTooLong
  | tooManyLinks
  | nulByte
  | invalidText
  | notRegular
  | permissionDenied
  | notPermitted
  deriving DecidableEq, Repr

namespace FileError

def message : FileError → String
  | notFound => "No such file or directory (os error 2)"
  | notDirectory => "Not a directory (os error 20)"
  | isDirectory => "Is a directory (os error 21)"
  | alreadyExists => "File exists (os error 17)"
  | nameTooLong => "File name too long (os error 36)"
  | tooManyLinks => "Too many levels of symbolic links (os error 40)"
  | nulByte => "file name contained an unexpected NUL byte"
  | invalidText => "stream did not contain valid UTF-8"
  | notRegular => "the source path is neither a regular file nor a symlink to a regular file"
  | permissionDenied => "Permission denied (os error 13)"
  | notPermitted => "Operation not permitted (os error 1)"

end FileError

/-- In bytes. -/
def longestName : Nat := 255

/-- In bytes. -/
def longestPath : Nat := 4095

/-- How many links are followed on the way of one path. -/
def mostLinks : Nat := 40

/-- A location as it is stood in. A directory that is removed meanwhile stays where it was for those
who stand in it: `removed` counts the names at the end of `place` that are gone. -/
structure Position where
  place : Location
  removed : Nat := 0
  deriving DecidableEq, Repr

/-- The position one level higher; the root is its own parent. -/
def Position.parent (p : Position) : Position := ⟨p.place.dropLast, p.removed - 1⟩

/-- The position after `place` and all below it have been removed. -/
def Position.without (p : Position) (place : Location) : Position :=
  if place.isPrefixOf (p.place.take (p.place.length - p.removed)) then
    { p with removed := p.place.length - (place.length - 1) }
  else p

/-- What a path is looked up for: the entry that it denotes (a link at the very end stands for
itself, if it is a link that is looked for), the file that writing to it fills (no separator may
follow its name), or its location (each name on the way is asked for by the path down to it). -/
inductive Purpose where
  | entry
  | link
  | target
  | location
  deriving DecidableEq, Repr

/-- Where the steps of a path lead: to an entry, or to a name that a directory does not hold. -/
inductive Destination where
  | entry (position : Position) (entry : Entry)
  | absent (directory : Location) (name : Name)
  deriving DecidableEq, Repr

namespace Path

def names (p : Path) : List Name := p.segments.filter (· != [])

def asksForDirectory (p : Path) : Bool := p.bytes.getLast? == some separator

/-- The steps of a path from where it starts; a separator at the end is a step without a name, which
asks for a directory. -/
def steps (p : Path) : List Name := p.names ++ if p.asksForDirectory then [[]] else []

def isTooLong (p : Path) : Bool := longestPath < p.bytes.length

end Path

/-- The plainest path of a location. -/
def Location.path (place : Location) : Path := .ofComponents (.root :: place.map .normal)

namespace FileTree

/-- What stands at a position. A removed directory is still a directory. -/
def at? (t : FileTree) (p : Position) : Option Entry :=
  if p.removed = 0 then t.get? p.place else some .directory

/-- Where `steps` lead from `position`, following at most `links` links. A removed directory holds
nothing. -/
def follow (t : FileTree) (purpose : Purpose) (links : Nat) (position : Position)
    (steps : List Name) : Except FileError Destination :=
  match steps with
  | [] => match t.at? position with
    | some entry => .ok (.entry position entry)
    | none => .error .notFound
  | name :: rest =>
    let place := position.place
    let next := place ++ [name]
    match t.at? position with
    | some .directory =>
      if name = [] ∨ name = [Path.dot] then follow t purpose links position rest
      else if name = [Path.dot, Path.dot] then follow t purpose links position.parent rest
      else if purpose = .target ∧ rest = [[]] then .error .isDirectory
      else if position.removed ≠ 0 then .error .notFound
      else if longestName < name.length then .error .nameTooLong
      else if purpose = .location ∧ (Location.path next).isTooLong then .error .nameTooLong
      else match t.get? next with
        | none => if rest = [] then .ok (.absent place name) else .error .notFound
        | some (.link target) =>
          if purpose = .link ∧ rest = [] then .ok (.entry ⟨next, 0⟩ (.link target))
          else match links with
            | 0 => .error .tooManyLinks
            | links + 1 =>
              if target.bytes = [] then .error .notFound
              else follow t purpose links ⟨if target.isAbsolute then [] else place, 0⟩
                (target.steps ++ rest)
        | some _ => follow t purpose links ⟨next, 0⟩ rest
    | some _ => .error .notDirectory
    | none => .error .notFound
termination_by (links, steps.length)

end FileTree

/-- A file tree seen by a user from a working directory. -/
structure Disk where
  tree : FileTree
  cwd : Position
  user : User := {}

namespace Disk

/-- The working directory as a path, unless it has been removed. -/
def cwdPath? (d : Disk) : Option Path :=
  if d.cwd.removed = 0 then some (Location.path d.cwd.place) else none

def origin (d : Disk) (p : Path) : Position := if p.isAbsolute then ⟨[], 0⟩ else d.cwd

/-- Where some steps lead from the start of a path. Only a path whose parts are asked for one by one
may have any length. -/
def leadBy (d : Disk) (purpose : Purpose) (p : Path) (steps : List Name) :
    Except FileError Destination :=
  if 0 ∈ p.bytes then .error .nulByte
  else if p.bytes = [] then .error .notFound
  else if purpose ≠ .location ∧ p.isTooLong then .error .nameTooLong
  else d.tree.follow purpose mostLinks (d.origin p) steps

/-- Where a path leads. -/
def lead (d : Disk) (purpose : Purpose) (p : Path) : Except FileError Destination :=
  d.leadBy purpose p p.steps

/-- The entry that a path leads to, and where it stands. -/
def findFor (d : Disk) (purpose : Purpose) (p : Path) : Except FileError (Position × Entry) :=
  match d.lead purpose p with
  | .ok (.entry position entry) => .ok (position, entry)
  | .ok (.absent _ _) => .error .notFound
  | .error e => .error e

def find (d : Disk) (p : Path) : Except FileError (Position × Entry) := d.findFor .entry p

def findLink (d : Disk) (p : Path) : Except FileError (Position × Entry) := d.findFor .link p

def holds (d : Disk) (p : Path) : Bool := (d.find p).toOption.isSome

def isDirectory (d : Disk) (p : Path) : Bool :=
  match d.find p with
  | .ok (_, .directory) => true
  | _ => false

def isFile (d : Disk) (p : Path) : Bool :=
  match d.find p with
  | .ok (_, .file _) => true
  | _ => false

/-- The path without `.`, `..` and links on it, of what a path denotes. Any path that starts at the
root or in a working directory with a path will do. -/
def realPath? (d : Disk) (p : Path) : Option Path :=
  if p.isAbsolute ∨ d.cwd.removed = 0 then
    match d.findFor .location p with
    | .ok (position, _) => some (Location.path position.place)
    | .error _ => none
  else none

/-- The real path of what a path denotes, otherwise its lexical form. -/
def normalize (d : Disk) (p : Path) : Path := (d.realPath? p).getD (p.resolve d.cwdPath?)

def read (d : Disk) (p : Path) : Except FileError Bytes :=
  match d.find p with
  | .ok (_, .file file) =>
    if d.user.may .read file then .ok file.content else .error .permissionDenied
  | .ok _ => .error .isDirectory
  | .error e => .error e

/-- As `read`, for a user who may read every file. -/
def contentOf (d : Disk) (p : Path) : Except FileError Bytes :=
  match d.find p with
  | .ok (_, .file file) => .ok file.content
  | .ok _ => .error .isDirectory
  | .error e => .error e

def readText (d : Disk) (p : Path) : Except FileError Text := do
  let content ← d.read p
  match Utf8.decode? content with
  | some text => .ok text
  | none => .error .invalidText

end Disk

end StyleAssets
