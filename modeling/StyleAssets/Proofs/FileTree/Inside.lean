import StyleAssets.Proofs.FileTree.Directory
import StyleAssets.Proofs.FileTree.Filled
import StyleAssets.Proofs.Path.Join

/-!
# Names in directories

A path that is a directory joined with a name is looked up by way of the directory.

* `FileTree.follow_snoc` — a look-up that has come to a directory goes on from there with one more
  name.
* `Disk.LeadsTo` — a path leads to a directory; the empty path leads to the working directory.
* `Disk.aim_join` — writing to a name in a directory fills the place of that name, unless a
  link stands there; then `Disk.findLink_join` finds it.
-/

namespace StyleAssets

namespace FileTree

variable {t : FileTree} {purpose : Purpose} {links : Nat} {position p : Position}
  {steps : List Name} {name : Name}

theorem arrive_snoc {place : Location} {first : Name} {rest : List Name} {entry : Option Entry}
    {links' : Nat} {position' : Position} {steps' : List Name}
    (h : arrive .entry links place first rest entry = .go links' position' steps') :
    arrive purpose links place first (rest ++ [name]) entry =
      .go links' position' (steps' ++ [name]) := by
  have hmore : ¬(purpose = .link ∧ rest ++ [name] = []) := by simp
  unfold arrive at h ⊢
  split at h
  · cases h
  · simp only [reduceCtorEq, false_and, if_false] at h
    simp only [hmore, if_false]
    cases links with
    | zero => cases h
    | succ links =>
      simp only at h ⊢
      split at h
      · cases h
      · rename_i htarget
        cases h
        rw [if_neg htarget, List.append_assoc]
  · cases h
    rfl

/-- A step that goes on does not mind one more name at the end of the path. -/
theorem move_snoc {links' : Nat} {position' : Position} {steps' : List Name} (hname : name ≠ [])
    (hpurpose : purpose ≠ .location)
    (h : t.move .entry links position steps = .go links' position' steps') :
    t.move purpose links position (steps ++ [name]) = .go links' position' (steps' ++ [name]) := by
  cases steps with
  | nil =>
    simp only [move] at h
    split at h <;> cases h
  | cons first rest =>
    have hrefusal : refusal? purpose position first (rest ++ [name]) =
        refusal? .entry position first rest := by
      have hslash : rest ++ [name] ≠ [[]] := by
        intro heq
        cases rest with
        | nil => exact hname (by simpa using heq)
        | cons second rest => simp at heq
      simp [refusal?, hslash, hpurpose]
    simp only [List.cons_append, move, hrefusal] at h ⊢
    split at h
    · by_cases hdot : first = [] ∨ first = [Path.dot]
      · rw [if_pos hdot] at h ⊢
        cases h
        rfl
      by_cases hparent : first = [Path.dot, Path.dot]
      · rw [if_neg hdot, if_pos hparent] at h ⊢
        cases h
        rfl
      rw [if_neg hdot, if_neg hparent] at h ⊢
      cases hwhy : refusal? .entry position first rest with
      | some e =>
        rw [hwhy] at h
        cases h
      | none =>
        rw [hwhy] at h
        exact arrive_snoc h
    · cases h
    · cases h

/-- **A look-up that has come to a directory goes on from there** with one more name. -/
theorem follow_snoc (hname : name ≠ []) (hpurpose : purpose ≠ .location)
    (h : t.follow .entry links position steps = .ok (.entry p .directory)) :
    ∃ links', t.follow purpose links position (steps ++ [name]) =
      t.follow purpose links' p [name] := by
  revert h
  refine follow_induction (motive := fun links position steps result =>
    result = .ok (.entry p .directory) → ∃ links',
      t.follow purpose links position (steps ++ [name]) = t.follow purpose links' p [name])
    (fun links position steps result hmove h => ?_)
    (fun links position steps links' position' steps' result hmove ih h => ?_) links position steps
  · subst h
    cases steps with
    | nil =>
      simp only [move] at hmove
      split at hmove
      · cases hmove
        exact ⟨links, rfl⟩
      · cases hmove
    | cons first rest =>
      -- looking for an entry, a step by way of a name does not end at one
      obtain ⟨hlink, -⟩ := link_of_move_cons hmove
      cases hlink
  · rw [follow_eq t purpose links position, move_snoc hname hpurpose hmove]
    exact ih h

/-- Looking up one name from a directory. -/
theorem follow_name (hname : Path.IsStep (.normal name)) (hat : t.at? p = some .directory)
    (hrefusal : refusal? purpose p name [] = none) :
    t.follow purpose links p [name] =
      (arrive purpose links p.place name [] (t.get? (p.place ++ [name]))).result t purpose := by
  obtain ⟨hempty, hdot, hparent, -⟩ := hname
  rw [follow_eq, move, hat]
  simp only [hempty, hdot, hparent, or_self, if_false, hrefusal]

/-- Where no link stands, one name leads to what stands there. -/
theorem follow_name_of_ne_link (hname : Path.IsStep (.normal name))
    (hat : t.at? p = some .directory) (hrefusal : refusal? purpose p name [] = none)
    (hlink : ∀ target, t.get? (p.place ++ [name]) ≠ some (.link target)) :
    t.follow purpose links p [name] = .ok (match t.get? (p.place ++ [name]) with
      | some entry => .entry ⟨p.place ++ [name], 0⟩ entry
      | none => .absent p.place name) := by
  rw [follow_name hname hat hrefusal]
  cases hget : t.get? (p.place ++ [name]) with
  | none => rfl
  | some entry =>
    exact result_arrive purpose links hget fun target htarget => hlink target (htarget ▸ hget)

theorem refusal?_of_follow_name (hname : Path.IsStep (.normal name))
    (hat : t.at? p = some .directory) {destination : Destination}
    (h : t.follow purpose links p [name] = .ok destination) :
    refusal? purpose p name [] = none := by
  obtain ⟨hempty, hdot, hparent, -⟩ := hname
  rw [follow_eq, move, hat] at h
  simp only [hempty, hdot, hparent, or_self, if_false] at h
  split at h
  · cases h
  · assumption

end FileTree

/-! ## Paths -/

namespace Disk

variable {d e : Disk} {dir p : Path} {name : Name} {position : Position} {place : Location}

/-- A path leads to a directory; the empty path leads to the working directory. -/
def LeadsTo (d : Disk) (dir : Path) (position : Position) : Prop :=
  d.tree.follow .entry mostLinks (d.origin dir) dir.names = .ok (.entry position .directory)

theorem LeadsTo.at? (h : d.LeadsTo dir position) : d.tree.at? position = some .directory :=
  FileTree.at?_of_follow_entry h

theorem LeadsTo.unique {other : Position} (h : d.LeadsTo dir position) (h' : d.LeadsTo dir other) :
    other = position := by
  have heq := h.symm.trans h'
  cases heq
  rfl

theorem leadsTo_of_find (h : d.find dir = .ok (position, .directory)) : d.LeadsTo dir position :=
  (find_directory_iff (admits_of_leadBy (lead_of_find h))).1 h

theorem LeadsTo.grows (h : d.LeadsTo dir position) (hgrows : d.Grows e) :
    e.LeadsTo dir position := by
  have hkept := FileTree.follow_kept hgrows.tree .entry mostLinks (d.origin dir) dir.names
  rw [h] at hkept
  rw [LeadsTo, origin, hgrows.cwd]
  change FileTree.Kept _ _ _ (e.tree.follow .entry mostLinks (d.origin dir) dir.names) at hkept
  change e.tree.follow .entry mostLinks (d.origin dir) dir.names = _
  generalize e.tree.follow .entry mostLinks (d.origin dir) dir.names = result at hkept ⊢
  cases hkept with
  | entry _ hshape => rw [Entry.eq_directory_of_shape hshape]

theorem LeadsTo.of_filled (h : e.LeadsTo dir position) (hfilled : d.Filled e) :
    d.LeadsTo dir position := by
  rw [LeadsTo, origin, hfilled.grows.cwd] at h
  refine FileTree.follow_of_filled hfilled.tree h fun p entry heq => ?_
  cases heq
  exact hfilled.tree.directory (FileTree.at?_of_follow_entry h)

/-- A name in a directory is looked up from there. -/
theorem lead_join {purpose : Purpose} (h : d.LeadsTo dir position)
    (hname : Path.IsStep (.normal name)) (hpurpose : purpose ≠ .location)
    (hadmits : Admits purpose (dir.join ⟨name⟩)) :
    ∃ links, d.lead purpose (dir.join ⟨name⟩) =
      d.tree.follow purpose links position [name] := by
  obtain ⟨links, hfollow⟩ := FileTree.follow_snoc hname.1 hpurpose h
  refine ⟨links, ?_⟩
  rw [lead_of_admits hadmits, Path.steps_join_name dir hname, origin,
    Path.isAbsolute_join_name dir hname]
  exact hfollow

/-- **Writing to a name in a directory fills the place of that name**, unless a link stands
there. -/
theorem aim_join (h : d.LeadsTo dir position) (hname : Path.IsStep (.normal name))
    (haim : d.aim (dir.join ⟨name⟩) = .ok place) :
    (Admits .target (dir.join ⟨name⟩) ∧ FileTree.refusal? .target position name [] = none) ∧
      (place = position.place ++ [name] ∨
        ∃ target, d.tree.get? (position.place ++ [name]) = some (.link target)) := by
  have hadmits := admits_of_aim haim
  obtain ⟨links, hlead⟩ := lead_join h hname (by decide) hadmits
  rw [aim, hlead] at haim
  have hrefusal : FileTree.refusal? .target position name [] = none := by
    cases hfollow : d.tree.follow .target links position [name] with
    | ok destination => exact FileTree.refusal?_of_follow_name hname h.at? hfollow
    | error e =>
      rw [hfollow] at haim
      cases haim
  refine ⟨⟨hadmits, hrefusal⟩, or_iff_not_imp_right.2 fun hlink => ?_⟩
  rw [FileTree.follow_name_of_ne_link hname h.at? hrefusal (not_exists.1 hlink)] at haim
  cases hget : d.tree.get? (position.place ++ [name]) with
  | none =>
    rw [hget] at haim
    cases haim
    rfl
  | some entry =>
    rw [hget] at haim
    cases entry <;> cases haim
    rfl

/-- A link that stands at a name in a directory is found there. -/
theorem findLink_join {target : Path} (h : d.LeadsTo dir position)
    (hname : Path.IsStep (.normal name)) (hadmits : Admits .target (dir.join ⟨name⟩))
    (hrefusal : FileTree.refusal? .target position name [] = none)
    (hget : d.tree.get? (position.place ++ [name]) = some (.link target)) :
    d.findLink (dir.join ⟨name⟩) = .ok (⟨position.place ++ [name], 0⟩, .link target) := by
  have hadmits' : Admits .link (dir.join ⟨name⟩) := by simpa [Admits] using hadmits
  obtain ⟨links, hlead⟩ := lead_join h hname (by decide) hadmits'
  have hrefusal' : FileTree.refusal? .link position name [] = none := by
    simpa [FileTree.refusal?] using hrefusal
  rw [findLink, findFor, hlead, FileTree.follow_name hname h.at? hrefusal', hget]
  rfl

end Disk

end StyleAssets
