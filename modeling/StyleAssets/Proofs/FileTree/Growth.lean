import StyleAssets.Proofs.FileTree.Route

/-!
# Trees that grow

Runs create files and directories and replace the content of files; they take nothing away. What a
path has been found to denote, it denotes ever after.

* `FileTree.Grows` — all entries are kept, but for what files there are.
* `FileTree.Kept` — what growth makes of the end of a look-up; `follow_kept` is proved from
  `move_kept`, which says the same of one step.
-/

namespace StyleAssets

/-- An entry, but for what file it is. -/
def Entry.shape : Entry → Entry
  | file _ => file { content := [] }
  | entry => entry

theorem Entry.eq_directory_of_shape {entry : Entry} (h : entry.shape = directory.shape) :
    entry = directory := by
  cases entry <;> simp_all [shape]

theorem Entry.eq_link_of_shape {entry : Entry} {target : Path}
    (h : entry.shape = (link target).shape) : entry = link target := by
  cases entry <;> simp_all [shape]

theorem Entry.eq_file_of_shape {entry : Entry} {x : File}
    (h : entry.shape = (file x).shape) : ∃ y, entry = .file y := by
  cases entry <;> simp_all [shape]

namespace FileTree

/-- All entries are kept, but for what files there are. -/
def Grows (t t' : FileTree) : Prop :=
  ∀ place entry, t.get? place = some entry →
    ∃ entry', t'.get? place = some entry' ∧ entry'.shape = entry.shape

theorem Grows.refl (t : FileTree) : t.Grows t := fun _ entry h => ⟨entry, h, rfl⟩

theorem Grows.trans {t t' t'' : FileTree} (h : t.Grows t') (h' : t'.Grows t'') : t.Grows t'' := by
  intro place entry hentry
  obtain ⟨entry', hentry', hshape⟩ := h place entry hentry
  obtain ⟨entry'', hentry'', hshape'⟩ := h' place entry' hentry'
  exact ⟨entry'', hentry'', hshape'.trans hshape⟩

variable {t t' : FileTree} {purpose : Purpose} {links : Nat} {position : Position}
  {steps : List Name}

theorem Grows.at? (h : t.Grows t') {entry : Entry} (hat : t.at? position = some entry) :
    ∃ entry', t'.at? position = some entry' ∧ entry'.shape = entry.shape := by
  unfold FileTree.at? at hat ⊢
  split
  · rw [if_pos ‹_›] at hat
    exact h _ _ hat
  · rw [if_neg ‹_›] at hat
    exact ⟨entry, hat, rfl⟩

/-- What growth makes of the end of a look-up. What could not be found may have come to be, and a
name may have come to have an entry. -/
inductive Kept (t' : FileTree) (purpose : Purpose) :
    Except FileError Destination → Except FileError Destination → Prop
  | entry (position : Position) {entry entry' : Entry} (h : entry'.shape = entry.shape) :
      Kept t' purpose (.ok (.entry position entry)) (.ok (.entry position entry'))
  | error (e : FileError) : Kept t' purpose (.error e) (.error e)
  | notFound (result : Except FileError Destination) : Kept t' purpose (.error .notFound) result
  | absent (links : Nat) (place : Location) (name : Name) :
      Kept t' purpose (.ok (.absent place name))
        ((arrive purpose links place name [] (t'.get? (place ++ [name]))).result t' purpose)

/-- What growth makes of one step of a look-up. -/
inductive Move.Kept (t' : FileTree) (purpose : Purpose) : Move → Move → Prop
  | go (links : Nat) (position : Position) (steps : List Name) :
      Kept t' purpose (.go links position steps) (.go links position steps)
  | stop {result : Except FileError Destination} {move : Move}
      (h : FileTree.Kept t' purpose result (move.result t' purpose)) :
      Kept t' purpose (.stop result) move

theorem arrive_kept (h : t.Grows t') (links : Nat) (place : Location) (name : Name)
    (rest : List Name) :
    Move.Kept t' purpose
      (arrive purpose links place name rest (t.get? (place ++ [name])))
      (arrive purpose links place name rest (t'.get? (place ++ [name]))) := by
  cases hget : t.get? (place ++ [name]) with
  | none =>
    by_cases hrest : rest = []
    · subst hrest
      exact .stop (.absent links place name)
    · simp only [arrive, hrest, if_false]
      exact .stop (.notFound _)
  | some entry =>
    obtain ⟨entry', hget', hshape⟩ := h _ _ hget
    rw [hget']
    cases entry with
    | file x =>
      obtain ⟨y, rfl⟩ := Entry.eq_file_of_shape hshape
      exact .go _ _ _
    | directory =>
      rw [Entry.eq_directory_of_shape hshape]
      exact .go _ _ _
    | link target =>
      rw [Entry.eq_link_of_shape hshape]
      simp only [arrive]
      split
      · exact .stop (.entry _ rfl)
      · cases links with
        | zero => exact .stop (.error _)
        | succ links =>
          simp only
          split
          · exact .stop (.error _)
          · exact .go _ _ _

/-- One step leads to the same place. -/
theorem move_kept (h : t.Grows t') (purpose : Purpose) (links : Nat) (position : Position)
    (steps : List Name) :
    Move.Kept t' purpose (t.move purpose links position steps)
      (t'.move purpose links position steps) := by
  cases steps with
  | nil =>
    simp only [move]
    cases hat : t.at? position with
    | none => exact .stop (.notFound _)
    | some entry =>
      obtain ⟨entry', hat', hshape⟩ := h.at? hat
      rw [hat']
      exact .stop (.entry _ hshape)
  | cons name rest =>
    simp only [move]
    cases hat : t.at? position with
    | none => exact .stop (.notFound _)
    | some entry =>
      obtain ⟨entry', hat', hshape⟩ := h.at? hat
      rw [hat']
      cases entry with
      | directory =>
        rw [Entry.eq_directory_of_shape hshape]
        simp only
        split
        · exact .go _ _ _
        split
        · exact .go _ _ _
        split
        · exact .stop (.error _)
        · exact arrive_kept h links position.place name rest
      | file x =>
        obtain ⟨y, rfl⟩ := Entry.eq_file_of_shape hshape
        exact .stop (.error _)
      | link target =>
        rw [Entry.eq_link_of_shape hshape]
        exact .stop (.error _)

/-- **A look-up leads to the same place.** -/
theorem follow_kept (h : t.Grows t') (purpose : Purpose) (links : Nat) (position : Position)
    (steps : List Name) :
    Kept t' purpose (t.follow purpose links position steps)
      (t'.follow purpose links position steps) := by
  refine follow_induction
    (motive := fun links position steps result =>
      Kept t' purpose result (t'.follow purpose links position steps))
    (fun links position steps result hmove => ?_)
    (fun links position steps links' position' steps' result hmove ih => ?_) links position steps
  · have hkept := move_kept h purpose links position steps
    rw [hmove] at hkept
    rw [follow_eq]
    cases hkept with
    | stop hresult => exact hresult
  · have hkept := move_kept h purpose links position steps
    rw [hmove] at hkept
    rw [follow_eq]
    generalize t'.move purpose links position steps = move' at hkept ⊢
    cases hkept with
    | go => exact ih

end FileTree
end StyleAssets
