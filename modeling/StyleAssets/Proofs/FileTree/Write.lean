import StyleAssets.Proofs.FileTree.Growth

/-!
# Writing files

* `Disk.Grows` — a tree grows around the same working directory, and nothing becomes of its files
  that the user has no right to do.
* `Disk.Receives` — the user can put a file at a location; `grows_put_file`.
* `Disk.find_of_grows`, `Disk.aim_of_grows` — what was found or could be written stays so.
* `Disk.contentOf_of_aim` — what is written under a path is found under it.
-/

namespace StyleAssets

namespace FileTree

variable {t t' : FileTree}

theorem grows_put {place : Location} {entry : Entry} (hplace : t.Takes place)
    (h : ∀ old, t.get? place = some old → entry.shape = old.shape) :
    t.Grows (t.put place entry) := by
  intro other old hold
  rw [get?_put hplace]
  by_cases hother : other = place
  · subst hother
    exact ⟨entry, if_pos rfl, h old hold⟩
  · exact ⟨old, by rw [if_neg hother, hold], rfl⟩

theorem refusal?_entry {position : Position} {name : Name} {rest : List Name}
    (h : refusal? .target position name rest = none) :
    refusal? .entry position name rest = none := by
  unfold refusal? at h ⊢
  split at h
  · cases h
  · simpa using h

/-- What one step finds for writing, it finds for reading. -/
theorem move_entry_of_target {links : Nat} {position : Position} {steps : List Name}
    (h : ∀ e, t.move .target links position steps ≠ .stop (.error e)) :
    t.move .entry links position steps = t.move .target links position steps := by
  cases steps with
  | nil => rfl
  | cons name rest =>
    simp only [move] at h ⊢
    split
    · rename_i hat
      simp only [hat] at h
      split
      · rfl
      · split
        · rfl
        · rename_i hdot hparent
          rw [if_neg hdot, if_neg hparent] at h
          cases hrefusal : refusal? .target position name rest with
          | some e =>
            rw [hrefusal] at h
            exact absurd rfl (h e)
          | none =>
            rw [refusal?_entry hrefusal]
            rfl
    · rfl
    · rfl

theorem follow_entry_of_target {links : Nat} {position p : Position} {steps : List Name}
    {entry : Entry} (h : t.follow .target links position steps = .ok (.entry p entry)) :
    t.follow .entry links position steps = .ok (.entry p entry) := by
  revert h
  refine follow_induction (motive := fun links position steps result =>
    result = .ok (.entry p entry) →
      t.follow .entry links position steps = .ok (.entry p entry))
    (fun links position steps result hmove h => ?_)
    (fun links position steps links' position' steps' result hmove ih h => ?_) links position steps
  · subst h
    rw [follow_eq, move_entry_of_target (by simp [hmove]), hmove]
    rfl
  · rw [follow_eq, move_entry_of_target (by simp [hmove]), hmove]
    exact ih h

end FileTree

namespace Disk

variable {d d' : Disk} {p : Path}

@[simp] theorem cwd_put (d : Disk) (place : Location) (entry : Entry) :
    (d.put place entry).cwd = d.cwd := rfl

@[simp] theorem user_put (d : Disk) (place : Location) (entry : Entry) :
    (d.put place entry).user = d.user := rfl

theorem get?_put {place : Location} (h : d.tree.Takes place) (other : Location) (entry : Entry) :
    (d.put place entry).tree.get? other =
      if other = place then some entry else d.tree.get? other :=
  FileTree.get?_put h other entry

theorem get?_put_of_ne {place other : Location} (h : other ≠ place) (entry : Entry) :
    (d.put place entry).tree.get? other = d.tree.get? other :=
  FileTree.get?_put_of_ne h entry

theorem get?_put_self {place : Location} (h : d.tree.Takes place) (entry : Entry) :
    (d.put place entry).tree.get? place = some entry := by
  rw [get?_put h, if_pos rfl]

/-! ## What is there to be filled -/

theorem isOpen_congr {place : Location} (huser : d'.user = d.user)
    (h : d'.tree.get? place = d.tree.get? place) : d'.isOpen place = d.isOpen place := by
  rw [isOpen, isOpen, h, huser]

theorem refilled_congr {place : Location} (huser : d'.user = d.user)
    (h : d'.tree.get? place = d.tree.get? place) (content : Bytes) :
    d'.refilled place content = d.refilled place content := by
  rw [refilled, refilled, h, huser]

theorem refilled_of_file {place : Location} {file : File}
    (h : d.tree.get? place = some (.file file)) (content : Bytes) :
    d.refilled place content = { file with content } := by
  rw [refilled, h]

theorem refilled_of_ne_file {place : Location}
    (h : ∀ file, d.tree.get? place ≠ some (.file file)) (content : Bytes) :
    d.refilled place content = d.user.newFile content := by
  unfold refilled
  split
  · exact absurd ‹_› (h _)
  · rfl

/-- New content does not matter to the mode and the owner of a file. -/
theorem refilled_eq (d : Disk) (place : Location) (content : Bytes) :
    d.refilled place content = { d.refilled place [] with content } := by
  unfold refilled
  split
  · rfl
  · rfl

theorem owns_congr {u : User} {x y : File} (h : x.standing = y.standing) : u.owns x = u.owns y := by
  rw [User.owns, User.owns, h]

/-- The user can put a file at a location: there is room for it and the user may write there. What
the user may not change about the file that stands there, it keeps. -/
structure Receives (d : Disk) (place : Location) (file : File) : Prop where
  room : d.HasRoom place
  isOpen : d.isOpen place = true
  standing : file.standing = (d.refilled place []).standing
  mode : d.user.owns file = false → file.mode = (d.refilled place []).mode

theorem Receives.takes {place : Location} {file : File} (h : d.Receives place file) :
    d.tree.Takes place := h.room.takes

theorem receives_refilled {place : Location} (hplace : d.writable p = .ok place)
    (content : Bytes) : d.Receives place (d.refilled place content) := by
  obtain ⟨haim, hopen⟩ := writable_eq_ok.1 hplace
  exact ⟨(hasRoom_of_aim haim).1, hopen, by rw [refilled_eq], fun _ => by rw [refilled_eq]⟩

theorem standing_overwritten (d : Disk) (place origin : Location) (file : File) :
    (d.overwritten place origin file).standing = (d.refilled place []).standing := by
  unfold overwritten
  dsimp only
  split
  · rfl
  · rfl

/-- A file of the user's gets the content and the mode of the one that is copied there; copied onto
itself, it is emptied. -/
theorem overwritten_of_owns {place origin : Location} {file : File}
    (h : d.user.owns (d.overwritten place origin file) = true) :
    d.overwritten place origin file = { d.refilled place [] with
      content := if origin = place then [] else file.content, mode := file.mode } := by
  rw [owns_congr (d.standing_overwritten place origin file)] at h
  rw [overwritten]
  simp only [h, if_true]

theorem receives_overwritten {place : Location} (hplace : d.writable p = .ok place)
    (origin : Location) (file : File) : d.Receives place (d.overwritten place origin file) := by
  obtain ⟨haim, hopen⟩ := writable_eq_ok.1 hplace
  have hstanding := d.standing_overwritten place origin file
  refine ⟨(hasRoom_of_aim haim).1, hopen, hstanding, fun howns => ?_⟩
  rw [owns_congr hstanding] at howns
  rw [overwritten]
  simp only [howns, Bool.false_eq_true, if_false]

/-! ## Growing -/

/-- A tree grows around the same working directory. Files keep their owners, and their modes if the
user does not own them; they stay as they are if the user may not write to them. -/
structure Grows (d d' : Disk) : Prop where
  tree : d.tree.Grows d'.tree
  cwd : d'.cwd = d.cwd
  user : d'.user = d.user
  standing : ∀ place, (d'.refilled place []).standing = (d.refilled place []).standing
  mode : ∀ place, d.user.owns (d.refilled place []) = false →
    (d'.refilled place []).mode = (d.refilled place []).mode
  shut : ∀ place, d.isOpen place = false → d'.tree.get? place = d.tree.get? place

theorem Grows.refl (d : Disk) : d.Grows d :=
  ⟨.refl _, rfl, rfl, fun _ => rfl, fun _ _ => rfl, fun _ _ => rfl⟩

theorem Grows.owns (h : d.Grows d') (place : Location) :
    d'.user.owns (d'.refilled place []) = d.user.owns (d.refilled place []) := by
  rw [h.user, owns_congr (h.standing place)]

/-- Where the user may write later, the user might have written before. -/
theorem Grows.isOpen (h : d.Grows d') {place : Location} (hopen : d'.isOpen place = true) :
    d.isOpen place = true := by
  cases hshut : d.isOpen place with
  | true => rfl
  | false =>
    rw [isOpen_congr h.user (h.shut place hshut), hshut] at hopen
    cases hopen

theorem Grows.trans {d'' : Disk} (h : d.Grows d') (h' : d'.Grows d'') : d.Grows d'' where
  tree := h.tree.trans h'.tree
  cwd := h'.cwd.trans h.cwd
  user := h'.user.trans h.user
  standing place := (h'.standing place).trans (h.standing place)
  mode place howns := (h'.mode place ((h.owns place).trans howns)).trans (h.mode place howns)
  shut place hshut := by
    have hsame := h.shut place hshut
    rw [h'.shut place (by rw [isOpen_congr h.user hsame, hshut]), hsame]

theorem grows_put_file {place : Location} {file : File} (h : d.Receives place file) :
    d.Grows (d.put place (.file file)) := by
  have hself : (d.put place (.file file)).refilled place [] = { file with content := [] } :=
    refilled_of_file (get?_put_self h.takes _) []
  have hothers : ∀ other, other ≠ place →
      (d.put place (.file file)).refilled other [] = d.refilled other [] :=
    fun other hne => refilled_congr (user_put d place _) (get?_put_of_ne hne _) []
  refine ⟨?_, rfl, rfl, fun other => ?_, fun other howns => ?_, fun other hshut => ?_⟩
  · refine FileTree.grows_put h.takes fun old hold => ?_
    obtain ⟨x, rfl⟩ := h.room.file old hold
    rfl
  · by_cases hother : other = place
    · rw [hother, hself, ← h.standing]
    · rw [hothers other hother]
  · by_cases hother : other = place
    · subst hother
      rw [hself, ← h.mode]
      rwa [owns_congr h.standing]
    · rw [hothers other hother]
  · refine get?_put_of_ne ?_ _
    rintro rfl
    rw [h.isOpen] at hshut
    cases hshut

theorem grows_put_directory {place : Location} (hplace : d.tree.Takes place)
    (h : d.tree.get? place = none) : d.Grows (d.put place .directory) := by
  -- neither what was absent nor what is a directory is a file
  have hsame : ∀ other, (d.put place .directory).refilled other [] = d.refilled other [] := by
    intro other
    by_cases hother : other = place
    · subst hother
      have hnew : ∀ file, (d.put other .directory).tree.get? other ≠ some (.file file) := by
        intro file
        rw [get?_put_self hplace]
        exact nofun
      rw [refilled_of_ne_file hnew, refilled_of_ne_file (by simp [h]), user_put]
    · exact refilled_congr (user_put d place _) (get?_put_of_ne hother _) []
  refine ⟨?_, rfl, rfl, fun other => by rw [hsame], fun other _ => by rw [hsame],
    fun other hshut => ?_⟩
  · refine FileTree.grows_put hplace fun old hold => ?_
    rw [h] at hold
    cases hold
  · refine get?_put_of_ne ?_ _
    rintro rfl
    simp [isOpen, h] at hshut

theorem Grows.directory (h : d.Grows d') {place : Location}
    (hget : d.tree.get? place = some .directory) : d'.tree.get? place = some .directory := by
  obtain ⟨entry, hget', hshape⟩ := h.tree place _ hget
  rw [hget', Entry.eq_directory_of_shape hshape]

theorem Grows.file (h : d.Grows d') {place : Location} {x : File}
    (hget : d.tree.get? place = some (.file x)) : ∃ y, d'.tree.get? place = some (.file y) := by
  obtain ⟨entry, hget', hshape⟩ := h.tree place _ hget
  obtain ⟨y, rfl⟩ := Entry.eq_file_of_shape hshape
  exact ⟨y, hget'⟩

/-- What is not there now was not there before. -/
theorem Grows.absent (h : d.Grows d') {place : Location} (hget : d'.tree.get? place = none) :
    d.tree.get? place = none := by
  cases hold : d.tree.get? place with
  | none => rfl
  | some entry =>
    obtain ⟨entry', hget', -⟩ := h.tree place entry hold
    rw [hget] at hget'
    cases hget'

theorem admits_entry_iff_target : Admits .entry p ↔ Admits .target p := by
  simp [Admits]

/-- The end of a look-up in a tree that has grown. -/
theorem lead_kept (h : d.Grows d') (purpose : Purpose) (p : Path) :
    FileTree.Kept d'.tree purpose (d.lead purpose p) (d'.lead purpose p) := by
  by_cases hadmits : Admits purpose p
  · rw [lead_of_admits hadmits, lead_of_admits hadmits, origin, origin, h.cwd]
    exact FileTree.follow_kept h.tree _ _ _ _
  · obtain ⟨heq, e, he⟩ := lead_of_not_admits hadmits d d'
    rw [← heq, he]
    exact .error e

/-- **What has been found is found again.** -/
theorem find_of_grows (h : d.Grows d') {position : Position} {entry : Entry}
    (hfind : d.find p = .ok (position, entry)) :
    ∃ entry', d'.find p = .ok (position, entry') ∧ entry'.shape = entry.shape := by
  have hkept := lead_kept h .entry p
  rw [lead_of_find hfind] at hkept
  cases hlead : d'.lead .entry p with
  | error e =>
    rw [hlead] at hkept
    cases hkept
  | ok destination =>
    rw [hlead] at hkept
    cases hkept with
    | entry _ hshape => exact ⟨_, by rw [find, findFor, hlead], hshape⟩

/-- What could be filled can be filled again, unless a directory or a link has come in its place. -/
theorem aim_of_grows (h : d.Grows d') {place : Location} (haim : d.aim p = .ok place)
    (hfile : ∀ entry, d'.tree.get? place = some entry → ∃ file, entry = .file file) :
    d'.aim p = .ok place := by
  have hkept := lead_kept h .target p
  unfold aim at haim ⊢
  split at haim
  · rename_i position x hlead
    cases haim
    rw [hlead] at hkept
    cases hlead' : d'.lead .target p with
    | error e =>
      rw [hlead'] at hkept
      cases hkept
    | ok destination =>
      rw [hlead'] at hkept
      cases hkept with
      | entry _ hshape =>
        obtain ⟨y, rfl⟩ := Entry.eq_file_of_shape hshape
        rfl
  · cases haim
  · rename_i directory name hlead
    cases haim
    rw [hlead] at hkept
    cases hget : d'.tree.get? (directory ++ [name]) with
    | none =>
      generalize d'.lead .target p = lead' at hkept ⊢
      cases hkept
      rw [hget]
      rfl
    | some entry =>
      obtain ⟨y, rfl⟩ := hfile entry hget
      generalize d'.lead .target p = lead' at hkept ⊢
      cases hkept
      rw [hget, FileTree.result_arrive _ _ hget nofun]
  · cases haim

/-- A file that stands where writing to a path puts it is found by that path. -/
theorem find_of_aim {place : Location} {file : File} (h : d.aim p = .ok place)
    (hget : d.tree.get? place = some (.file file)) :
    ∃ position, position.place = place ∧ d.find p = .ok (position, .file file) := by
  unfold aim at h
  split at h
  · rename_i position x hlead
    cases h
    have hadmits := admits_of_leadBy hlead
    have hdirectory : Entry.file x ≠ .directory := nofun
    obtain ⟨hget', -⟩ := get?_of_lead_entry hdirectory hlead
    rw [hget] at hget'
    cases hget'
    rw [lead_of_admits hadmits] at hlead
    refine ⟨position, rfl, ?_⟩
    rw [find, findFor, lead_of_admits (admits_entry_iff_target.2 hadmits),
      FileTree.follow_entry_of_target hlead]
  · cases h
  · rename_i directory name hlead
    cases h
    rw [(get?_of_lead_absent hlead).1] at hget
    cases hget
  · cases h

/-- **What is written under a path is found under it.** -/
theorem contentOf_of_aim {place : Location} {file : File} (h : d.Grows d')
    (haim : d.aim p = .ok place) (hget : d'.tree.get? place = some (.file file)) :
    d'.contentOf p = .ok file.content := by
  have haim' : d'.aim p = .ok place := by
    refine aim_of_grows h haim fun entry hentry => ⟨file, ?_⟩
    rw [hget] at hentry
    exact (Option.some.inj hentry).symm
  obtain ⟨position, -, hfind⟩ := find_of_aim haim' hget
  rw [contentOf, hfind]

end Disk
end StyleAssets
