import StyleAssets.Proofs.FileTree.Inside
import StyleAssets.Proofs.Path.Parent

/-!
# Directories by their components

Which file a path leads to may depend on how the path is written: a separator or a `.` at its end
asks for a directory. Where a directory is looked up, only the components matter.

* `FileTree.follow_directory_iff` — `.` is not a step on the way to a directory.
* `Disk.leadsTo_congr` — **main result**: paths that are the same lead to the same directory.
* `Disk.normalize_of_find` — a real path that is known is the location.
-/

namespace StyleAssets

namespace Path

variable {p q : Path}

/-- Does a piece of a path stand for a component? -/
def counts (piece : Name) : Bool := (component? piece).isSome

theorem counts_eq_false_iff {name : Name} : counts name = false ↔ name = [] ∨ name = [dot] := by
  rw [counts, Option.isSome_eq_false_iff, Option.isNone_iff_eq_none, component?_eq_none_iff]
  simp

theorem filter_names (p : Path) :
    p.names.filter counts = (p.segments.filterMap component?).map Component.bytes := by
  have hsegments : ∀ segments : List Name, (segments.filter (· != [])).filter counts =
      (segments.filterMap component?).map Component.bytes := by
    intro segments
    induction segments with
    | nil => rfl
    | cons piece segments ih =>
      rw [List.filter_filter] at ih ⊢
      by_cases hempty : piece = []
      · subst hempty
        exact ih
      by_cases hdot : piece = [dot]
      · subst hdot
        exact ih
      by_cases hparent : piece = [dot, dot]
      · subst hparent
        rw [List.filter_cons_of_pos (by decide), ih]
        rfl
      · have hpiece : component? piece = some (.normal piece) := by
          rw [component?, if_neg (not_or.2 ⟨hempty, hdot⟩), if_neg hparent]
        rw [List.filter_cons_of_pos (by simp [counts, hpiece, hempty]), ih, List.filterMap_cons,
          hpiece]
        rfl
  exact hsegments p.segments

theorem components_join_nil (dir : Path) : (dir.join ⟨[]⟩).components = dir.components := by
  obtain ⟨front, hjoin, -, hfront⟩ := exists_front_join (q := ⟨[]⟩) dir rfl
  rw [hjoin, List.append_nil]
  obtain rfl | ⟨hne, rfl⟩ := hfront
  · rfl
  · exact components_slash hne

/-- What paths that are the same have in common. -/
theorem filter_names_of_same (h : p.Same q) :
    p.isAbsolute = q.isAbsolute ∧ p.names.filter counts = q.names.filter counts := by
  constructor
  · rw [Bool.eq_iff_iff, isAbsolute_iff_components, isAbsolute_iff_components, h]
  · rw [filter_names, filter_names, steps_eq_filter, steps_eq_filter, h]

end Path

namespace FileTree

variable {t : FileTree} {links : Nat} {position p : Position} {steps : List Name}

/-- There are no names in anything but a directory. -/
theorem follow_cons_of_at?_ne (purpose : Purpose) (links : Nat) (name : Name) (rest : List Name)
    (h : t.at? position ≠ some .directory) :
    ∃ cause, t.follow purpose links position (name :: rest) = .error cause := by
  rw [follow_eq, move]
  split
  · exact absurd ‹_› h
  · exact ⟨_, rfl⟩
  · exact ⟨_, rfl⟩

theorem follow_of_at?_ne (h : t.at? position ≠ some .directory) :
    t.follow .entry links position steps ≠ .ok (.entry p .directory) := by
  intro hfollow
  cases steps with
  | nil =>
    rw [follow_eq, move] at hfollow
    split at hfollow
    · cases hfollow
      exact h ‹_›
    · cases hfollow
  | cons name rest =>
    obtain ⟨cause, hcause⟩ := follow_cons_of_at?_ne .entry links name rest h
    rw [hcause] at hfollow
    cases hfollow

/-- **`.` is not a step on the way to a directory**, nor is an empty name. -/
theorem follow_directory_iff (t : FileTree) (links : Nat) (position : Position)
    (steps : List Name) :
    t.follow .entry links position (steps.filter Path.counts) = .ok (.entry p .directory) ↔
      t.follow .entry links position steps = .ok (.entry p .directory) := by
  by_cases hat : t.at? position = some .directory
  case neg => exact iff_of_false (follow_of_at?_ne hat) (follow_of_at?_ne hat)
  cases steps with
  | nil => rfl
  | cons name rest =>
    by_cases hblank : Path.counts name = false
    · have hgo : t.move .entry links position (name :: rest) = .go links position rest := by
        rw [move, hat]
        exact if_pos (Path.counts_eq_false_iff.1 hblank)
      rw [List.filter_cons_of_neg (by rw [hblank]; exact Bool.false_ne_true),
        follow_eq t .entry links position (name :: rest), hgo]
      exact follow_directory_iff t links position rest
    · rw [List.filter_cons_of_pos (by simpa using hblank), follow_eq,
        follow_eq t .entry links position (name :: rest)]
      rw [Path.counts_eq_false_iff] at hblank
      have hrefusal : refusal? .entry position name (rest.filter Path.counts) =
          refusal? .entry position name rest := by
        simp [refusal?]
      simp only [move, hat, hblank, if_false, hrefusal]
      split
      · exact follow_directory_iff t links position.parent rest
      split
      · rfl
      cases t.get? (position.place ++ [name]) with
      | none =>
        -- what is missing is no directory, whatever follows it
        simp only [arrive, Move.result]
        constructor
        · intro h
          split at h <;> cases h
        · intro h
          split at h <;> cases h
      | some entry =>
        cases entry with
        | directory => exact follow_directory_iff t links _ rest
        | file content => exact follow_directory_iff t links _ rest
        | link target =>
          simp only [arrive, reduceCtorEq, false_and, if_false]
          cases links with
          | zero => rfl
          | succ links =>
            simp only
            split
            · rfl
            · simp only [Move.result]
              rw [← follow_directory_iff t links _ (target.steps ++ rest),
                ← follow_directory_iff t links _ (target.steps ++ rest.filter Path.counts),
                List.filter_append, List.filter_append, List.filter_filter]
              simp only [Bool.and_self]
termination_by (links, steps.length)

end FileTree

namespace Disk

variable {d e : Disk} {p q : Path} {position : Position} {entry : Entry}

/-- **Paths that are the same lead to the same directory.** -/
theorem leadsTo_congr (h : p.Same q) : d.LeadsTo p position ↔ d.LeadsTo q position := by
  obtain ⟨habsolute, hnames⟩ := Path.filter_names_of_same h
  rw [LeadsTo, LeadsTo, origin, origin, habsolute, ← FileTree.follow_directory_iff,
    ← FileTree.follow_directory_iff _ _ _ q.names, hnames]

/-! ## Real paths -/

/-- **A real path that is known is the location** of what a path denotes. -/
theorem normalize_of_find (hfind : d.find p = .ok (position, entry))
    (hknown : (d.realPath? p).isSome = true) : d.normalize p = Location.path position.place := by
  have hadmits : Admits .entry p := admits_of_leadBy (lead_of_find hfind)
  have hadmits' : Admits .location p := ⟨hadmits.1, hadmits.2.1, fun hlong => hlong.1 rfl⟩
  have hlead := lead_of_find hfind
  rw [lead_of_admits hadmits] at hlead
  obtain ⟨real, hreal⟩ := Option.isSome_iff_exists.1 hknown
  rw [normalize, hreal]
  rw [realPath?, findFor, lead_of_admits hadmits'] at hreal
  split at hreal
  · obtain hsame | hlong := d.tree.follow_location mostLinks (d.origin p) p.steps
    · rw [hsame, hlead] at hreal
      exact (Option.some.inj hreal).symm
    · rw [hlong] at hreal
      cases hreal
  · cases hreal

/-- The empty path stands for the working directory. -/
theorem normalize_nil (hcwd : d.cwd.removed = 0)
    (hplace : ∀ name ∈ d.cwd.place, Path.IsStep (.normal name)) :
    (d.normalize ⟨[]⟩).Same (Location.path d.cwd.place) := by
  have hlead : d.lead .location ⟨[]⟩ = .error .notFound := by
    rw [lead, leadBy, if_neg List.not_mem_nil, if_pos rfl]
  have hreal : d.realPath? ⟨[]⟩ = none := by
    rw [realPath?, findFor, hlead]
    exact ite_self none
  have hanchor : (Path.anchor (some (Location.path d.cwd.place)) ⟨[]⟩).components =
      (Location.path d.cwd.place).components := Path.components_join_nil _
  rw [normalize, hreal, cwdPath?, if_pos hcwd, Option.getD_none, Path.Same, Path.resolve,
    Path.components_ofComponents (Path.isResolved_cancel _), hanchor,
    Location.components_path hplace, Path.cancel, List.foldl_cons]
  exact Path.foldl_advance_names _ _

end Disk

end StyleAssets
