import StyleAssets.Program
import StyleAssets.Program.Survey

/-!
# The command

Reads the part of the disk that a run looks up, runs the program on it, and puts into effect what
the program leaves behind. Of the mode of a file only what the user may do with it is asked for, and
every file is taken for one of the user's own.
-/

namespace StyleAssets.Command

/-- The name of a location for the system, if it has one. -/
def systemName? (place : Location) : Option String := do
  return String.ofList (← Utf8.decode? (Location.path place).bytes)

/-- The location that the system names. -/
def locationOf (name : String) : Location := (Path.ofString name).names

/-- The working directory; the system names one only if it has not been removed. -/
def workingDirectory : IO Position := do
  try return ⟨locationOf (← IO.currentDir).toString, 0⟩
  catch _ => return ⟨[[]], 1⟩

/-- The number that the system's status of this process gives first for a key. -/
def statusOf (base : Nat) (key : String) : IO (Option Nat) := do
  try
    let lines ← IO.FS.lines "/proc/self/status"
    return do
      let line ← lines.toList.find? (·.startsWith (key ++ ":"))
      let digits := (line.toList.dropWhile (!·.isDigit)).takeWhile Char.isDigit
      return digits.foldl (fun n c => base * n + (c.toNat - '0'.toNat)) 0
  catch _ => return none

def user : IO User := do
  return {
    isRoot := (← statusOf 10 "Uid") == some 0
    umask := ((← statusOf 8 "Umask").map (BitVec.ofNat 9)).getD 0o022 }

/-- Can a file be opened? To append nothing changes nothing. -/
def opens (name : String) (mode : IO.FS.Mode) : IO Bool := do
  try
    let _ ← IO.FS.Handle.mk name mode
    return true
  catch _ => return false

def readFile (name : String) : IO File := do
  let readable ← opens name .read
  let writable ← opens name .append
  let content ← if readable then IO.FS.readBinFile name else pure .empty
  return {
    content := content.toList
    mode := (if readable then 0o444 else 0) ||| if writable then 0o200 else 0 }

def entryAt? (place : Location) : IO (Option Entry) := do
  match systemName? place with
  | none => return none
  | some name =>
    try
      let file := (← IO.currentDir) / name
      match (← file.symlinkMetadata).type with
      | .dir => return some .directory
      | .file => return some (.file (← readFile name))
      | .symlink => return some (.link (.ofString (← IO.FS.realPath name).toString))
      | .other => return none
    catch _ => return none

/-- Reads what lies on the way of some names from a location; answers with the disk and the
location reached. Only links that lead somewhere are known, by where they lead in the end. -/
partial def readWay (d : Disk) (place : Location) : List Name → IO (Disk × Option Location)
  | [] => return (d, some place)
  | name :: rest => do
    if name = [Path.dot] then readWay d place rest
    else if name = [Path.dot, Path.dot] then readWay d place.dropLast rest
    else
      let next := place ++ [name]
      match ← entryAt? next with
      | none => return (d, none)
      | some (.link target) =>
        let (d, reached) ← readWay (d.put next (.link target)) [] target.names
        match reached with
        | some place => readWay d place rest
        | none => return (d, none)
      | some entry => readWay (d.put next entry) next rest

def readPath (d : Disk) (p : Path) : IO (Disk × Option Location) :=
  readWay d (d.origin p).place p.names

/-- Reads the directories and stylesheets below a directory. -/
partial def readBelow (d : Disk) (place : Location) : IO Disk := do
  match systemName? place with
  | none => return d
  | some name =>
    let mut d := d
    for child in ← ((← IO.currentDir) / name).readDir do
      let next := place ++ [Utf8.encode child.fileName.toList]
      match (← child.path.symlinkMetadata).type with
      | .dir => d ← readBelow (d.put next .directory) next
      | .file =>
        if (Location.path next).extension? = some Disk.stylesheetExtension then
          d := d.put next (.file (← readFile child.path.toString))
      | _ => pure ()
    return d

/-- Reads a path and, if it denotes a directory, what lies below it. -/
def readNamed (d : Disk) (p : Path) : IO Disk := do
  match ← readPath d p with
  | (d, some place) => if d.tree.get? place = some .directory then readBelow d place else return d
  | (d, none) => return d

/-- How often a survey is repeated: what a run looks up depends on the configuration, and that on
its file. -/
def rounds : Nat := 3

def survey (s : Surroundings) (a : Arguments) : IO Surroundings := do
  let mut disk := s.disk
  for p in a.paths do
    disk ← readNamed disk p
  for _ in List.range rounds do
    for p in Program.lookedUp { s with disk } a do
      disk := (← readPath disk p).1
  return { s with disk }

/-- What a mode says for those of one standing. Execution is not asked for. -/
def accessRight (m : Mode) (standing : Standing) : IO.AccessRight :=
  { read := m.allows standing .read, write := m.allows standing .write }

/-- Puts the changes of a run into effect: directories from the top down, then files. -/
def putIntoEffect (before after : Disk) : IO Unit := do
  let changes := (after.tree.changesSince before.tree []).mergeSort
    fun a b => a.1.length ≤ b.1.length
  for (place, entry) in changes do
    if let some name := systemName? place then
      if entry = .directory then IO.FS.createDir name
  for (place, entry) in changes do
    if let (some name, .file file) := (systemName? place, entry) then
      IO.FS.writeBinFile name ⟨file.content.toArray⟩
      if (before.refilled place []).mode ≠ file.mode then
        IO.setAccessRights name {
          user := accessRight file.mode .owner
          group := accessRight file.mode .group
          other := accessRight file.mode .other }

end StyleAssets.Command

open StyleAssets in
def main (arguments : List String) : IO UInt32 := do
  let arguments := arguments.map fun argument => Utf8.encode argument.toList
  let cwd ← Command.workingDirectory
  let home := (← IO.getEnv "HOME").map String.toList
  let (disk, _) ← Command.readWay ⟨.empty, cwd, ← Command.user⟩ [] cwd.place
  let start : Surroundings := ⟨disk, homeDirectory home none⟩
  let s ← match Arguments.parse arguments with
    | .ok a => Command.survey start a
    | .error _ => pure start
  let stderr ← IO.getStderr
  let finished := Program.run s (← stderr.isTty) arguments
  Command.putIntoEffect s.disk finished.disk
  (← IO.getStdout).putStr (String.ofList finished.stdout)
  stderr.putStr finished.stderr
  return finished.exitCode.toUInt32
