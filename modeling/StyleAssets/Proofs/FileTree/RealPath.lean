import StyleAssets.Proofs.FileTree.Route
import StyleAssets.Proofs.Path.Resolve

/-!
# Looking up absolute paths

An absolute path leads to the same place from every working directory, and its real path is written
without `.` and `..`.

* `Disk.lead_of_isAbsolute` — the working directory does not matter; `Disk.isFile_of_isAbsolute`,
  `Disk.readText_of_isAbsolute` and `Disk.normalize_of_isAbsolute` are what follows.
* `FileTree.named_of_follow` — a look-up that starts in the tree ends at a location made of names.
* `Disk.components_normalize` — **main result**: the real or lexical form of an absolute path is
  made of names below the root.
-/

namespace StyleAssets

namespace FileTree

variable {t : FileTree} {purpose : Purpose} {links links' : Nat} {position position' : Position}
  {steps steps' : List Name}

/-- A look-up that starts in the tree stays there. -/
theorem removed_of_go (h : t.move purpose links position steps = .go links' position' steps')
    (hposition : position.removed = 0) : position'.removed = 0 := by
  cases steps with
  | nil =>
    simp only [move] at h
    split at h <;> cases h
  | cons name rest =>
    simp only [move] at h
    split at h
    · split at h
      · cases h
        exact hposition
      split at h
      · cases h
        rw [Position.parent, hposition]
      split at h
      · cases h
      unfold arrive at h
      split at h
      · cases h
      · split at h
        · cases h
        split at h
        · cases h
        split at h
        · cases h
        · cases h
          rfl
      · cases h
        rfl
    · cases h
    · cases h

/-- **A look-up that starts in the tree ends at a location made of names.** -/
theorem named_of_follow {p : Position} {entry : Entry} (hposition : position.removed = 0)
    (h : t.follow purpose links position steps = .ok (.entry p entry)) : p.place.Named := by
  have hremoved : p.removed = 0 := by
    revert hposition h
    refine follow_induction (motive := fun links position steps result =>
      position.removed = 0 → result = .ok (.entry p entry) → p.removed = 0)
      (fun links position steps result hmove hposition h => ?_)
      (fun links position steps links' position' steps' result hmove ih hposition h =>
        ih (removed_of_go hmove hposition) h) links position steps
    subst h
    cases steps with
    | nil =>
      simp only [move] at hmove
      split at hmove <;> cases hmove
      exact hposition
    | cons name rest => rw [(link_of_move_cons hmove).2.1]
  have hat := at?_of_follow_entry h
  rw [at?, if_pos hremoved] at hat
  exact named_of_get? hat

end FileTree

namespace Disk

variable {t : FileTree} {c c' : Position} {u u' : User} {p : Path}

/-- **The working directory does not matter to an absolute path**, nor does the user to where a path
leads. -/
theorem lead_of_isAbsolute (hp : p.isAbsolute = true) (purpose : Purpose) :
    lead ⟨t, c, u⟩ purpose p = lead ⟨t, c', u'⟩ purpose p := by
  rw [lead, lead, leadBy, leadBy, origin, origin, if_pos hp, if_pos hp]

theorem findFor_of_isAbsolute (hp : p.isAbsolute = true) (purpose : Purpose) :
    findFor ⟨t, c, u⟩ purpose p = findFor ⟨t, c', u'⟩ purpose p := by
  rw [findFor, findFor, lead_of_isAbsolute hp]

theorem isFile_of_isAbsolute (hp : p.isAbsolute = true) :
    isFile ⟨t, c, u⟩ p = isFile ⟨t, c', u'⟩ p := by
  rw [isFile, isFile, find, find, findFor_of_isAbsolute hp]

theorem readText_of_isAbsolute (hp : p.isAbsolute = true) :
    readText ⟨t, c, u⟩ p = readText ⟨t, c', u⟩ p := by
  rw [readText, readText, read, read, find, find, findFor_of_isAbsolute hp]

theorem normalize_of_isAbsolute (hp : p.isAbsolute = true) :
    normalize ⟨t, c, u⟩ p = normalize ⟨t, c', u⟩ p := by
  rw [normalize, normalize, realPath?, realPath?, findFor_of_isAbsolute hp,
    Path.resolve_of_isAbsolute _ hp, Path.resolve_of_isAbsolute _ hp, if_pos (.inl hp),
    if_pos (.inl hp)]

theorem named_of_findFor {d : Disk} {purpose : Purpose} {position : Position} {entry : Entry}
    (hp : p.isAbsolute = true) (h : d.findFor purpose p = .ok (position, entry)) :
    position.place.Named := by
  have hlead := lead_of_findFor h
  rw [lead_of_admits (admits_of_leadBy hlead), origin, if_pos hp] at hlead
  exact FileTree.named_of_follow rfl hlead

/-- **The real or lexical form of an absolute path is made of names below the root.** -/
theorem components_normalize (d : Disk) (hp : p.isAbsolute = true) :
    (d.normalize p).isAbsolute = true ∧
      ∃ names : List Name, (d.normalize p).components = .root :: names.map .normal := by
  have hanchor : p.anchor d.cwdPath? = p := if_pos hp
  cases hreal : d.realPath? p with
  | none =>
    rw [normalize, hreal]
    exact Path.components_resolve (hanchor.symm ▸ hp)
  | some real =>
    rw [normalize, hreal]
    rw [realPath?, if_pos (.inl hp)] at hreal
    split at hreal
    · rename_i hfind
      cases hreal
      have hnamed := named_of_findFor hp hfind
      exact ⟨rfl, _, Location.components_path hnamed⟩
    · cases hreal

end Disk

end StyleAssets
