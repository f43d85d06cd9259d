import StyleAssets.Proofs.FileTree.Write

/-!
# Making directories

* `FileTree.follow_link`, `FileTree.follow_location`, `FileTree.follow_slash` — what the purpose of
  a look-up changes about it, and what a separator at the end of a path does.
* `Disk.normalize_of_grows` — the real path of a file stays.
* `Disk.Furnishes` — nothing but directories is added; `furnishes_makeDirectories`.
* `Disk.makeDirectories_again` — making directories that are there already changes nothing.
-/

namespace StyleAssets

namespace FileTree

variable {t : FileTree} {links : Nat} {position : Position} {steps : List Name}

theorem move_link (t : FileTree) (links : Nat) (position : Position) (steps : List Name) :
    t.move .link links position steps = t.move .entry links position steps ∨
      ∃ p target, t.move .link links position steps = .stop (.ok (.entry p (.link target))) := by
  cases steps with
  | nil => exact .inl rfl
  | cons name rest =>
    have hrefusal : refusal? .link position name rest = refusal? .entry position name rest := by
      simp [refusal?]
    simp only [move, hrefusal]
    split
    · split
      · exact .inl rfl
      split
      · exact .inl rfl
      split
      · exact .inl rfl
      · unfold arrive
        split
        · exact .inl rfl
        · rename_i target _
          split
          · exact .inr ⟨_, target, rfl⟩
          · simp
        · exact .inl rfl
    · exact .inl rfl
    · exact .inl rfl

/-- Looking for a link is looking for an entry, unless it ends at a link. -/
theorem follow_link (t : FileTree) (links : Nat) (position : Position) (steps : List Name) :
    t.follow .link links position steps = t.follow .entry links position steps ∨
      ∃ p target, t.follow .link links position steps = .ok (.entry p (.link target)) := by
  refine follow_induction (motive := fun links position steps result =>
      result = t.follow .entry links position steps ∨
        ∃ p target, result = .ok (.entry p (.link target)))
    (fun links position steps result hmove => ?_)
    (fun links position steps links' position' steps' result hmove ih => ?_) links position steps
  · obtain hsame | ⟨p, target, hlink⟩ := t.move_link links position steps
    · rw [follow_eq, ← hsame, hmove]
      exact .inl rfl
    · rw [hmove] at hlink
      exact .inr ⟨p, target, Move.stop.inj hlink⟩
  · obtain hsame | ⟨p, target, hlink⟩ := t.move_link links position steps
    · rw [follow_eq t .entry links, ← hsame, hmove]
      exact ih
    · rw [hmove] at hlink
      cases hlink

theorem move_location (t : FileTree) (links : Nat) (position : Position) (steps : List Name) :
    t.move .location links position steps = t.move .entry links position steps ∨
      t.move .location links position steps = .stop (.error .nameTooLong) := by
  cases steps with
  | nil => exact .inl rfl
  | cons name rest =>
    have hrefusal : refusal? .location position name rest = refusal? .entry position name rest ∨
        refusal? .location position name rest = some .nameTooLong := by
      unfold refusal?
      split
      · simp_all
      · split
        · simp_all
        · split
          · simp_all
          · split <;> simp_all
    simp only [move]
    split
    · split
      · exact .inl rfl
      split
      · exact .inl rfl
      obtain hsame | hlong := hrefusal
      · rw [hsame]
        exact .inl rfl
      · rw [hlong]
        exact .inr rfl
    · exact .inl rfl
    · exact .inl rfl

/-- Looking for a location is looking for an entry, as long as no path gets too long. -/
theorem follow_location (t : FileTree) (links : Nat) (position : Position) (steps : List Name) :
    t.follow .location links position steps = t.follow .entry links position steps ∨
      t.follow .location links position steps = .error .nameTooLong := by
  refine follow_induction (motive := fun links position steps result =>
    result = t.follow .entry links position steps ∨ result = .error .nameTooLong)
    (fun links position steps result hmove => ?_)
    (fun links position steps links' position' steps' result hmove ih => ?_) links position steps
  · obtain hsame | hlong := t.move_location links position steps
    · rw [follow_eq, ← hsame, hmove]
      exact .inl rfl
    · rw [hmove] at hlong
      exact .inr (Move.stop.inj hlong)
  · obtain hsame | hlong := t.move_location links position steps
    · rw [follow_eq t .entry links, ← hsame, hmove]
      exact ih
    · rw [hmove] at hlong
      cases hlong

/-- The end of a look-up for a directory. -/
def asDirectory : Except FileError Destination → Except FileError Destination
  | .ok (.entry position .directory) => .ok (.entry position .directory)
  | .ok (.entry _ _) => .error .notDirectory
  | .ok (.absent _ _) => .error .notFound
  | .error e => .error e

theorem eq_of_asDirectory {result : Except FileError Destination} {p : Position} {entry : Entry}
    (h : asDirectory result = .ok (.entry p entry)) :
    entry = .directory ∧ result = .ok (.entry p .directory) := by
  unfold asDirectory at h
  split at h <;> cases h
  exact ⟨rfl, rfl⟩

/-- A step that does not end the path takes no notice of a separator behind it. -/
theorem move_slash (t : FileTree) (links : Nat) (position : Position) (name : Name)
    (rest : List Name) :
    t.move .entry links position (name :: rest ++ [[]]) =
      match t.move .entry links position (name :: rest) with
      | .stop result => .stop (asDirectory result)
      | .go links position steps => .go links position (steps ++ [[]]) := by
  have hrefusal : refusal? .entry position name (rest ++ [[]]) =
      refusal? .entry position name rest := by
    simp [refusal?]
  simp only [List.cons_append, move, hrefusal]
  split
  · split
    · rfl
    split
    · rfl
    split
    · rfl
    · unfold arrive
      split
      · by_cases hrest : rest = [] <;> simp [hrest, asDirectory]
      · simp only [List.append_eq_nil_iff]
        split
        · simp_all
        · cases links with
          | zero => rfl
          | succ links =>
            simp only
            split
            · simp [asDirectory]
            · simp
      · rfl
  · rfl
  · rfl

/-- A separator at the end of a path asks for a directory. -/
theorem follow_slash (t : FileTree) (links : Nat) (position : Position) (steps : List Name) :
    t.follow .entry links position (steps ++ [[]]) =
      asDirectory (t.follow .entry links position steps) := by
  refine follow_induction (motive := fun links position steps result =>
    t.follow .entry links position (steps ++ [[]]) = asDirectory result)
    (fun links position steps result hmove => ?_)
    (fun links position steps links' position' steps' result hmove ih => ?_) links position steps
  · cases steps with
    | nil =>
      rw [List.nil_append, follow_eq]
      simp only [move] at hmove ⊢
      split
      · rename_i hat
        rw [hat] at hmove
        cases hmove
        simp only [true_or, if_true, Move.result]
        rw [follow_eq, move, hat]
        rfl
      · rename_i entry hdirectory hat
        rw [hat] at hmove
        cases hmove
        cases entry with
        | directory => exact absurd rfl hdirectory
        | file file => rfl
        | link target => rfl
      · rename_i hat
        rw [hat] at hmove
        cases hmove
        rfl
    | cons name rest =>
      rw [follow_eq, move_slash, hmove]
      rfl
  · cases steps with
    | nil =>
      simp only [move] at hmove
      split at hmove <;> cases hmove
    | cons name rest =>
      rw [follow_eq, move_slash, hmove]
      exact ih

end FileTree

namespace Disk

variable {d e made : Disk} {purpose : Purpose} {p : Path} {steps : List Name}

theorem leadBy_of_admits (h : Admits purpose p) (steps : List Name) :
    d.leadBy purpose p steps = d.tree.follow purpose mostLinks (d.origin p) steps := by
  obtain ⟨hnul, hempty, hlong⟩ := h
  rw [leadBy, if_neg hnul, if_neg hempty, if_neg hlong]

/-! ## Real paths -/

/-- **The real path of what a path denotes stays.** -/
theorem realPath?_of_grows (h : d.Grows e) {position : Position} {entry : Entry}
    (hfind : d.find p = .ok (position, entry)) : e.realPath? p = d.realPath? p := by
  have hadmits : Admits .entry p := admits_of_leadBy (lead_of_find hfind)
  have hadmits' : Admits .location p := ⟨hadmits.1, hadmits.2.1, fun hlong => hlong.1 rfl⟩
  have hkept := lead_kept h .location p
  rw [lead_of_admits hadmits'] at hkept
  have hfor : e.findFor .location p = d.findFor .location p ∨
      ∃ entry', e.findFor .location p = .ok (position, entry') ∧
        ∃ entry, d.findFor .location p = .ok (position, entry) := by
    simp only [findFor, lead_of_admits (d := d) hadmits']
    obtain hsame | hlong := d.tree.follow_location mostLinks (d.origin p) p.steps
    · have hentry := lead_of_find hfind
      rw [lead_of_admits hadmits] at hentry
      rw [hsame, hentry] at hkept ⊢
      generalize e.lead .location p = lead' at hkept ⊢
      cases hkept
      exact .inr ⟨_, rfl, _, rfl⟩
    · rw [hlong] at hkept ⊢
      generalize e.lead .location p = lead' at hkept ⊢
      cases hkept
      exact .inl rfl
  rw [realPath?, realPath?, h.cwd]
  obtain hsame | ⟨_, hthen, _, hnow⟩ := hfor
  · rw [hsame]
  · rw [hthen, hnow]

theorem cwdPath?_of_grows (h : d.Grows e) : e.cwdPath? = d.cwdPath? := by
  rw [cwdPath?, cwdPath?, h.cwd]

theorem normalize_of_grows (h : d.Grows e) {position : Position} {entry : Entry}
    (hfind : d.find p = .ok (position, entry)) : e.normalize p = d.normalize p := by
  rw [normalize, normalize, realPath?_of_grows h hfind, cwdPath?_of_grows h]

/-! ## Directories -/

theorem isDirectory_iff :
    d.isDirectory p = true ↔ ∃ position, d.find p = .ok (position, .directory) := by
  unfold isDirectory
  split
  · rename_i position hfind
    exact ⟨fun _ => ⟨position, hfind⟩, fun _ => rfl⟩
  · rename_i hnone
    exact ⟨nofun, fun ⟨position, hfind⟩ => absurd hfind (hnone position)⟩

theorem isDirectory_of_grows (h : d.Grows e) (hdirectory : d.isDirectory p = true) :
    e.isDirectory p = true := by
  obtain ⟨position, hfind⟩ := isDirectory_iff.1 hdirectory
  obtain ⟨entry, hfind', hshape⟩ := find_of_grows h hfind
  obtain rfl := Entry.eq_directory_of_shape hshape
  exact isDirectory_iff.2 ⟨position, hfind'⟩

/-- A separator at the end of its path does not matter to a directory. -/
theorem find_directory_iff {position : Position} (h : Admits .entry p) :
    d.find p = .ok (position, .directory) ↔
      d.tree.follow .entry mostLinks (d.origin p) p.names = .ok (.entry position .directory) := by
  have hlead : d.find p = .ok (position, .directory) ↔
      d.tree.follow .entry mostLinks (d.origin p) p.steps = .ok (.entry position .directory) := by
    rw [← lead_of_admits h]
    refine ⟨lead_of_find, fun hlead => ?_⟩
    rw [find, findFor, hlead]
  rw [hlead, Path.steps]
  split
  · rw [FileTree.follow_slash]
    refine ⟨fun hslash => (FileTree.eq_of_asDirectory hslash).2, fun hfollow => ?_⟩
    rw [hfollow]
    rfl
  · rw [List.append_nil]

theorem makeDirectory_of_isDirectory (h : d.isDirectory p = true) :
    d.makeDirectory p = .error .alreadyExists := by
  obtain ⟨position, hfind⟩ := isDirectory_iff.1 h
  have hadmits : Admits .entry p := admits_of_leadBy (lead_of_find hfind)
  have hadmits' : Admits .link p := by simpa [Admits] using hadmits
  rw [makeDirectory, leadBy_of_admits hadmits']
  obtain hsame | ⟨p', target, hlink⟩ := d.tree.follow_link mostLinks (d.origin p) p.names
  · rw [hsame, (find_directory_iff hadmits).1 hfind]
  · rw [hlink]

/-- A directory is made at a name that its directory does not have. -/
theorem makeDirectory_eq_ok (h : d.makeDirectory p = .ok made) :
    ∃ directory name, made = d.put (directory ++ [name]) .directory ∧ Admits .link p ∧
      d.tree.follow .link mostLinks (d.origin p) p.names = .ok (.absent directory name) ∧
      d.tree.get? (directory ++ [name]) = none ∧ d.tree.Takes (directory ++ [name]) := by
  unfold makeDirectory at h
  split at h
  · rename_i directory name hlead
    cases h
    have hadmits : Admits .link p := admits_of_leadBy hlead
    rw [leadBy_of_admits hadmits] at hlead
    have hplain : ∀ step ∈ p.names, Path.separator ∉ step := fun step hstep =>
      Path.not_mem_step (List.mem_append_left _ hstep)
    exact ⟨directory, name, rfl, hadmits, hlead, (FileTree.get?_of_follow_absent hlead).1,
      FileTree.takes_of_follow_absent hlead hplain⟩
  · cases h
  · cases h

/-- A directory that has been made is found where nothing was. -/
theorem find_of_makeDirectory (h : d.makeDirectory p = .ok made) :
    ∃ place, made.find p = .ok (⟨place, 0⟩, .directory) ∧ d.tree.get? place = none := by
  obtain ⟨place, name, rfl, hadmits, hlead, hnone, hplace⟩ := makeDirectory_eq_ok h
  have hadmits' : Admits .entry p := by simpa [Admits] using hadmits
  have hkept := FileTree.follow_kept (grows_put_directory hplace hnone).tree .link mostLinks
    (d.origin p) p.names
  rw [hlead] at hkept
  -- the new tree leads to the new directory, looking for a link and so for an entry
  have hlink : (d.put (place ++ [name]) .directory).tree.follow .link mostLinks (d.origin p)
      p.names = .ok (.entry ⟨place ++ [name], 0⟩ .directory) := by
    have hget := get?_put_self hplace .directory
    generalize (d.put (place ++ [name]) .directory).tree = t at hkept hget ⊢
    generalize t.follow .link mostLinks (d.origin p) p.names = result at hkept ⊢
    cases hkept
    rw [hget]
    exact FileTree.result_arrive _ _ hget (by simp)
  refine ⟨place ++ [name], (find_directory_iff hadmits').2 ?_, hnone⟩
  obtain hsame | ⟨p', target, hlink'⟩ :=
    (d.put (place ++ [name]) .directory).tree.follow_link mostLinks (d.origin p) p.names
  · exact hsame.symm.trans hlink
  · rw [hlink] at hlink'
    cases hlink'

theorem isDirectory_of_settleDirectory (h : d.settleDirectory p = (made, .ok ())) :
    made.isDirectory p = true := by
  unfold settleDirectory at h
  split at h
  · rename_i hmake
    cases h
    obtain ⟨place, hfind, -⟩ := find_of_makeDirectory hmake
    exact isDirectory_iff.2 ⟨⟨place, 0⟩, hfind⟩
  · split at h
    · cases h
      assumption
    · cases h

/-- Directories that are made are settled, their parents before them. -/
theorem makeDirectories_cases (h : d.makeDirectories p = (made, .ok ())) (hp : p.components ≠ []) :
    d.settleDirectory p = (made, .ok ()) ∨
      ∃ parent above, p.parent? = some parent ∧ parent.bytes.length < p.bytes.length ∧
        d.makeDirectories parent = (above, .ok ()) ∧ above.settleDirectory p = (made, .ok ()) := by
  rw [makeDirectories, if_neg hp] at h
  split at h
  · rename_i parent _ hparent
    split at h
    · rename_i hshorter
      split at h
      · rename_i above habove
        exact .inr ⟨parent, above, hparent, hshorter, habove, h⟩
      · rename_i hfailed
        exact absurd h (hfailed made)
    · cases h
  · exact .inl h

theorem isDirectory_of_makeDirectories (h : d.makeDirectories p = (made, .ok ()))
    (hp : p.components ≠ []) : made.isDirectory p = true := by
  obtain hsettle | ⟨parent, above, -, -, -, hsettle⟩ := makeDirectories_cases h hp
  · exact isDirectory_of_settleDirectory hsettle
  · exact isDirectory_of_settleDirectory hsettle

theorem makeDirectories_of_isDirectory (h : d.isDirectory p = true) :
    d.makeDirectories p = (d, .ok ()) := by
  have hmake := makeDirectory_of_isDirectory h
  rw [makeDirectories]
  split
  · rfl
  · rw [hmake]
    simp only
    rw [settleDirectory, hmake, h]
    rfl

/-- **Making directories a second time changes nothing.** -/
theorem makeDirectories_again (h : d.makeDirectories p = (made, .ok ())) (hgrows : made.Grows e) :
    e.makeDirectories p = (e, .ok ()) := by
  by_cases hp : p.components = []
  · rw [makeDirectories, if_pos hp]
  · exact makeDirectories_of_isDirectory
      (isDirectory_of_grows hgrows (isDirectory_of_makeDirectories h hp))

/-! ## What making directories adds -/

/-- Nothing but directories is added. -/
structure Furnishes (d e : Disk) : Prop where
  grows : d.Grows e
  only : ∀ place entry, e.tree.get? place = some entry →
    d.tree.get? place = some entry ∨ d.tree.get? place = none ∧ entry = .directory

theorem Furnishes.refl (d : Disk) : d.Furnishes d := ⟨.refl d, fun _ _ h => .inl h⟩

theorem Furnishes.trans {e' : Disk} (h : d.Furnishes e) (h' : e.Furnishes e') :
    d.Furnishes e' where
  grows := h.grows.trans h'.grows
  only place entry hentry := by
    obtain hsame | ⟨hnone, hdirectory⟩ := h'.only place entry hentry
    · exact h.only place entry hsame
    · exact .inr ⟨h.grows.absent hnone, hdirectory⟩

/-- Directories are no links: a link has been there before. -/
theorem Furnishes.link (h : d.Furnishes e) {place : Location} {target : Path}
    (hlink : e.tree.get? place = some (.link target)) :
    d.tree.get? place = some (.link target) := by
  obtain hsame | ⟨-, hnew⟩ := h.only _ _ hlink
  · exact hsame
  · cases hnew

/-- What is there stays as it is. -/
theorem Furnishes.keeps (h : d.Furnishes e) {place : Location} {entry : Entry}
    (hget : d.tree.get? place = some entry) : e.tree.get? place = some entry := by
  obtain ⟨entry', hget', -⟩ := h.grows.tree place entry hget
  obtain hsame | ⟨hnone, -⟩ := h.only place entry' hget'
  · rw [hget', ← hsame, hget]
  · rw [hnone] at hget
    cases hget

theorem furnishes_makeDirectory (h : d.makeDirectory p = .ok made) : d.Furnishes made := by
  obtain ⟨place, name, rfl, -, -, hnone, hplace⟩ := makeDirectory_eq_ok h
  refine ⟨grows_put_directory hplace hnone, fun other entry hentry => ?_⟩
  rw [get?_put hplace] at hentry
  split at hentry
  · rename_i heq
    cases hentry
    exact .inr ⟨heq ▸ hnone, rfl⟩
  · exact .inl hentry

theorem furnishes_settleDirectory (d : Disk) (p : Path) : d.Furnishes (d.settleDirectory p).1 := by
  unfold settleDirectory
  split
  · exact furnishes_makeDirectory ‹_›
  · exact .refl d

theorem furnishes_makeDirectories (d : Disk) (p : Path) :
    d.Furnishes (d.makeDirectories p).1 := by
  rw [makeDirectories]
  split
  · exact .refl d
  · split
    · rename_i parent _ _
      split
      · have hparent := furnishes_makeDirectories d parent
        split
        · rename_i made hmade
          rw [hmade] at hparent
          exact hparent.trans (furnishes_settleDirectory made p)
        · exact hparent
      · exact .refl d
    · exact furnishes_settleDirectory d p
termination_by p.bytes.length

theorem furnishes_of_makeDirectories {result : Except FileError Unit}
    (h : d.makeDirectories p = (made, result)) : d.Furnishes made := by
  have hfurnishes := furnishes_makeDirectories d p
  rwa [h] at hfurnishes

end Disk

end StyleAssets
