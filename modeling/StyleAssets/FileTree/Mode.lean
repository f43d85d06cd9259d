import StyleAssets.Text.Utf8

/-!
# Modes

The mode of a file says what its owner, those of its group and all others may do with it. Root may
read and write every file, whatever its mode.

* `Mode.allows` — what a mode lets someone do.
* `User.may`, `User.owns` — what a user may do with the content and with the mode of a file.
* `User.newFile` — the file that a user creates.

Directories carry no modes: whoever runs the program may search, list and change all of them. The
bits of a mode that let no one do anything are left out.
-/

namespace StyleAssets

/-- To read, to write and to execute: for the owner, for the group and for others, from the highest
bit down. -/
abbrev Mode := BitVec 9

/-- Who a user is to a file. -/
inductive Standing where
  | owner
  | group
  | other
  deriving DecidableEq, Repr

inductive Access where
  | read
  | write
  deriving DecidableEq, Repr

def Mode.allows (m : Mode) : Standing → Access → Bool
  | .owner, .read => m.getLsbD 8
  | .owner, .write => m.getLsbD 7
  | .group, .read => m.getLsbD 5
  | .group, .write => m.getLsbD 4
  | .other, .read => m.getLsbD 2
  | .other, .write => m.getLsbD 1

/-- A file, and who the user of the program is to it. -/
@[ext]
structure File where
  content : Bytes
  mode : Mode := 0o644
  standing : Standing := .owner
  deriving DecidableEq, Repr

instance : Coe File Bytes := ⟨File.content⟩

/-- The user that the program runs as. What is set in `umask` is not set in the modes of new
files. -/
structure User where
  isRoot : Bool := true
  umask : Mode := 0o022
  deriving DecidableEq, Repr

namespace User

def may (u : User) (a : Access) (f : File) : Bool := u.isRoot || f.mode.allows f.standing a

/-- Only the owner of a file and root may change its mode. -/
def owns (u : User) (f : File) : Bool := u.isRoot || f.standing == .owner

def newFile (u : User) (content : Bytes) : File where
  content := content
  mode := 0o666 &&& ~~~u.umask

example : ({ isRoot := false } : User).may .write { content := [], mode := 0o444 } = false := rfl

end User

end StyleAssets
