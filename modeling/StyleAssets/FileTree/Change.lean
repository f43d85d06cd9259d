import StyleAssets.FileTree.Lookup

/-!
# Changing files

* `Disk.writable` — the file that writing to a path fills, if the user may write to it.
* `Disk.write` — creates or replaces the file that a path denotes.
* `Disk.makeDirectory`, `Disk.makeDirectories` — create one directory, or one with its parents.
* `Disk.copy` — replaces one file by the content and the mode of another. The target is emptied
  first: copying a file onto itself empties it, and so does a copy that may not change its mode.
* `Disk.remove` — removes an entry and all below it.
-/

namespace StyleAssets.Disk

def put (d : Disk) (place : Location) (entry : Entry) : Disk :=
  { d with tree := d.tree.put place entry }

/-- The location of the file that writing to a path fills, whoever may write to it. -/
def aim (d : Disk) (p : Path) : Except FileError Location :=
  match d.lead .target p with
  | .ok (.entry position (.file _)) => .ok position.place
  | .ok (.entry _ _) => .error .isDirectory
  | .ok (.absent directory name) => .ok (directory ++ [name])
  | .error e => .error e

/-- No file at a location keeps the user from writing there. -/
def isOpen (d : Disk) (place : Location) : Bool :=
  match d.tree.get? place with
  | some (.file file) => d.user.may .write file
  | _ => true

def writable (d : Disk) (p : Path) : Except FileError Location := do
  let place ← d.aim p
  if d.isOpen place then return place else .error .permissionDenied

/-- The file at a location with other content, or a new file if there is none. -/
def refilled (d : Disk) (place : Location) (content : Bytes) : File :=
  match d.tree.get? place with
  | some (.file file) => { file with content }
  | _ => d.user.newFile content

def write (d : Disk) (p : Path) (content : Bytes) : Except FileError Disk := do
  let place ← d.writable p
  return d.put place (.file (d.refilled place content))

/-- Creates one directory. A separator at the end of its path says nothing. -/
def makeDirectory (d : Disk) (p : Path) : Except FileError Disk :=
  match d.leadBy .link p p.names with
  | .ok (.absent directory name) => .ok (d.put (directory ++ [name]) .directory)
  | .ok (.entry _ _) => .error .alreadyExists
  | .error e => .error e

/-- Creates a directory; one that is there already will do. -/
def settleDirectory (d : Disk) (p : Path) : Disk × Except FileError Unit :=
  match d.makeDirectory p with
  | .ok made => (made, .ok ())
  | .error e => (d, if d.isDirectory p then .ok () else .error e)

/-- Creates a directory and those of its ancestors that are missing. What has been created stays
when a later step fails. -/
def makeDirectories (d : Disk) (p : Path) : Disk × Except FileError Unit :=
  if p.components = [] then (d, .ok ())
  else match d.makeDirectory p, p.parent? with
    | .error .notFound, some parent =>
      if parent.bytes.length < p.bytes.length then
        match d.makeDirectories parent with
        | (made, .ok ()) => made.settleDirectory p
        | failed => failed
      else (d, .error .notFound)
    | _, _ => d.settleDirectory p
termination_by p.bytes.length

/-- The file at a location after a file from another location has been copied there: it has been
emptied, then it is given the mode of the other, if the user owns it, and then the content. -/
def overwritten (d : Disk) (place origin : Location) (file : File) : File :=
  let empty := d.refilled place []
  if d.user.owns empty then
    { empty with content := if origin = place then [] else file.content, mode := file.mode }
  else empty

/-- The location that a copy fills, and with what. -/
def copied (d : Disk) (source target : Path) : Except FileError (Location × File) :=
  match d.find source with
  | .ok (position, .file file) =>
    if d.user.may .read file then
      match d.writable target with
      | .ok place => .ok (place, d.overwritten place position.place file)
      | .error e => .error e
    else .error .permissionDenied
  | .ok _ => .error .notRegular
  | .error e => .error e

/-- Replaces the target by the content and the mode of the source; the answer counts the bytes. -/
def copy (d : Disk) (source target : Path) : Disk × Except FileError Nat :=
  match d.copied source target with
  | .ok (place, file) =>
    (d.put place (.file file),
      if d.user.owns file then .ok file.content.length else .error .notPermitted)
  | .error e => (d, .error e)

/-- Removes an entry and all below it; a link is removed and not followed. -/
def remove (d : Disk) (p : Path) : Except FileError Disk := do
  match ← d.findLink p with
  | (⟨place, 0⟩, _) => return { d with tree := d.tree.erase place, cwd := d.cwd.without place }
  | _ => .error .notFound

end StyleAssets.Disk
