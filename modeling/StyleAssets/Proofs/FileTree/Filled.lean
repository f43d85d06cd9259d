import StyleAssets.Proofs.FileTree.Write

/-!
# Trees that are filled with files

Copies put files where a file or nothing stood. A look-up that ends where nothing has changed took
the same way before.

* `FileTree.Filled` — the tree has grown by files only.
* `FileTree.follow_of_filled` — a look-up that ends at an unchanged place went there before, proved
  from `move_of_filled`, which says the same of one step.
* `Disk.lead_of_filled`, `Disk.aim_of_filled` — the same of paths.
-/

namespace StyleAssets

namespace FileTree

variable {t t' : FileTree} {purpose : Purpose} {links : Nat} {position : Position}
  {steps : List Name}

/-- Only files have come to be. -/
structure Filled (t t' : FileTree) : Prop where
  grows : t.Grows t'
  file : ∀ place entry, t'.get? place = some entry →
    t.get? place = some entry ∨ ∃ file, entry = .file file

theorem Filled.directory (h : t.Filled t') (hat : t'.at? position = some .directory) :
    t.at? position = some .directory := by
  unfold at? at hat ⊢
  split
  · rw [if_pos ‹_›] at hat
    obtain hsame | ⟨file, hfile⟩ := h.file _ _ hat
    · exact hsame
    · cases hfile
  · rfl

theorem arrive_of_filled (h : t.Filled t') (links : Nat) (place : Location) (name : Name)
    (rest : List Name) :
    arrive purpose links place name rest (t.get? (place ++ [name])) =
        arrive purpose links place name rest (t'.get? (place ++ [name])) ∨
      t.get? (place ++ [name]) = none ∧
        arrive purpose links place name rest (t'.get? (place ++ [name])) =
          .go links ⟨place ++ [name], 0⟩ rest := by
  cases hget' : t'.get? (place ++ [name]) with
  | none =>
    cases hget : t.get? (place ++ [name]) with
    | none => exact .inl rfl
    | some entry =>
      obtain ⟨entry', hentry', -⟩ := h.grows _ _ hget
      rw [hget'] at hentry'
      cases hentry'
  | some entry' =>
    obtain hsame | ⟨y, rfl⟩ := h.file _ _ hget'
    · rw [hsame]
      exact .inl rfl
    · cases hget : t.get? (place ++ [name]) with
      | none => exact .inr ⟨rfl, rfl⟩
      | some entry =>
        -- what was there before was a file, too
        obtain ⟨entry', hentry', hshape⟩ := h.grows _ _ hget
        rw [hget'] at hentry'
        cases hentry'
        obtain ⟨x, rfl⟩ := Entry.eq_file_of_shape hshape.symm
        exact .inl rfl

/-- One step is the same, or it fails, or it leads to a file that has come to be. -/
theorem move_of_filled (h : t.Filled t') (purpose : Purpose) (links : Nat) (position : Position)
    (name : Name) (rest : List Name) :
    t.move purpose links position (name :: rest) = t'.move purpose links position (name :: rest) ∨
      (∃ e, t'.move purpose links position (name :: rest) = .stop (.error e)) ∨
      t.get? (position.place ++ [name]) = none ∧
        t'.move purpose links position (name :: rest) =
          .go links ⟨position.place ++ [name], 0⟩ rest := by
  simp only [move]
  cases hat' : t'.at? position with
  | none => exact .inr (.inl ⟨_, rfl⟩)
  | some here =>
    cases here with
    | file file => exact .inr (.inl ⟨_, rfl⟩)
    | link target => exact .inr (.inl ⟨_, rfl⟩)
    | directory =>
      rw [h.directory hat']
      simp only
      split
      · exact .inl rfl
      split
      · exact .inl rfl
      split
      · exact .inl rfl
      · obtain hsame | hnew := arrive_of_filled h links position.place name rest
        · exact .inl hsame
        · exact .inr (.inr hnew)

/-- **A look-up that ends at something old went there before.** -/
theorem follow_of_filled (h : t.Filled t') {destination : Destination}
    (hfollow : t'.follow purpose links position steps = .ok destination)
    (hold : ∀ p entry, destination = .entry p entry → t.at? p = some entry) :
    t.follow purpose links position steps = .ok destination := by
  revert hfollow
  refine follow_induction (motive := fun links position steps result =>
    result = .ok destination → t.follow purpose links position steps = .ok destination)
    (fun links position steps result hmove hresult => ?_)
    (fun links position steps links' position' steps' result hmove ih hresult => ?_)
    links position steps
  · subst hresult
    cases steps with
    | nil =>
      simp only [move] at hmove
      split at hmove
      · cases hmove
        rw [follow_eq, move, hold _ _ rfl]
        rfl
      · cases hmove
    | cons name rest =>
      obtain hsame | ⟨e, herror⟩ | ⟨-, hgo⟩ := move_of_filled h purpose links position name rest
      · rw [follow_eq, hsame, hmove]
        rfl
      · rw [hmove] at herror
        cases herror
      · rw [hmove] at hgo
        cases hgo
  · cases steps with
    | nil =>
      simp only [move] at hmove
      split at hmove <;> cases hmove
    | cons name rest =>
      obtain hsame | ⟨e, herror⟩ | ⟨hnone, hgo⟩ :=
        move_of_filled h purpose links position name rest
      · rw [follow_eq, hsame, hmove]
        exact ih hresult
      · rw [hmove] at herror
        cases herror
      · -- nothing old is found at or behind a file that was not there
        rw [hmove] at hgo
        cases hgo
        have hlast := ih hresult
        rw [follow_eq] at hlast
        cases steps' <;> simp [move, at?, hnone, Move.result] at hlast

end FileTree

namespace Disk

/-- A disk has grown by files only. -/
structure Filled (d e : Disk) : Prop where
  grows : d.Grows e
  file : ∀ place entry, e.tree.get? place = some entry →
    d.tree.get? place = some entry ∨ ∃ file, entry = .file file

variable {d e : Disk} {p : Path} {purpose : Purpose}

theorem Filled.refl (d : Disk) : d.Filled d := ⟨.refl d, fun _ _ h => .inl h⟩

theorem Filled.tree (h : d.Filled e) : d.tree.Filled e.tree := ⟨h.grows.tree, h.file⟩

theorem Filled.trans {e' : Disk} (h : d.Filled e) (h' : e.Filled e') : d.Filled e' where
  grows := h.grows.trans h'.grows
  file place entry hentry := by
    obtain hsame | hfile := h'.file place entry hentry
    · exact h.file place entry hsame
    · exact .inr hfile

theorem Filled.put (h : d.Filled e) {place : Location} {file : File}
    (hplace : e.Receives place file) : d.Filled (e.put place (.file file)) where
  grows := h.grows.trans (grows_put_file hplace)
  file other entry hentry := by
    rw [get?_put hplace.takes] at hentry
    split at hentry
    · exact .inr ⟨file, (Option.some.inj hentry).symm⟩
    · exact h.file other entry hentry

/-- Files are no links: a link has been there before. -/
theorem Filled.link (h : d.Filled e) {place : Location} {target : Path}
    (hlink : e.tree.get? place = some (.link target)) :
    d.tree.get? place = some (.link target) := by
  obtain hsame | ⟨file, hfile⟩ := h.file _ _ hlink
  · exact hsame
  · cases hfile

theorem lead_of_filled (h : d.Filled e) {destination : Destination}
    (hlead : e.lead purpose p = .ok destination)
    (hold : ∀ position entry, destination = .entry position entry →
      d.tree.at? position = some entry) : d.lead purpose p = .ok destination := by
  have hadmits := admits_of_leadBy hlead
  rw [lead_of_admits hadmits, origin, h.grows.cwd] at hlead
  rw [lead_of_admits hadmits]
  exact FileTree.follow_of_filled h.tree hlead hold

/-- **What can be filled at an unchanged place could be filled there before.** -/
theorem aim_of_filled (h : d.Filled e) {place : Location} (haim : e.aim p = .ok place)
    (hsame : e.tree.get? place = d.tree.get? place) : d.aim p = .ok place := by
  unfold aim at haim ⊢
  split at haim
  · rename_i position file hlead
    cases haim
    have hat := at?_of_lead_entry hlead
    have hold : d.tree.at? position = some (.file file) := by
      unfold FileTree.at? at hat ⊢
      split at hat
      · rw [if_pos ‹_›, ← hsame, hat]
      · cases hat
    rw [lead_of_filled h hlead fun _ _ heq => by cases heq; exact hold]
  · cases haim
  · rename_i hlead
    cases haim
    rw [lead_of_filled h hlead nofun]
  · cases haim

end Disk

end StyleAssets
