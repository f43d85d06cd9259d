import StyleAssets.Proofs.Asset.Copy
import StyleAssets.Proofs.FileTree.Write

/-!
# What a copy does

A copy finds its source, finds the place that its target fills, and puts the content there. What it
comes to depends on these two look-ups and on what the user may do at that place. So it stays the
same while a disk evolves elsewhere, unless an earlier copy has left a file that the user may not
write to.

* `CopyJob.effect` — the place that a copy fills, and with what; `attempt_eq` says that the copy
  does nothing else.
* `Disk.Evolves` — files have been filled and directories made, at given places only.
* `CopyJob.Steady` — those places do not matter to a copy; `effect_of_evolves`, `evolves_runEach`.
-/

namespace StyleAssets

namespace Disk

/-- One disk comes from another by filling files and making directories at given places; only files
come to be where no directories are made. -/
structure Evolves (filled made : Location → Prop) (d e : Disk) : Prop where
  grows : d.Grows e
  same : ∀ place, ¬filled place → ¬made place → e.tree.get? place = d.tree.get? place
  file : ∀ place entry, ¬made place → e.tree.get? place = some entry →
    d.tree.get? place = some entry ∨ ∃ file, entry = .file file

variable {filled made : Location → Prop} {d e : Disk} {p : Path}

theorem Evolves.refl (filled made : Location → Prop) (d : Disk) : Evolves filled made d d where
  grows := .refl d
  same _ _ _ := rfl
  file _ _ _ h := .inl h

/-- Filling a file at one of the places. -/
theorem Evolves.put (h : Evolves filled made d e) {place : Location} {file : File}
    (hfilled : filled place) (hplace : e.Receives place file) :
    Evolves filled made d (e.put place (.file file)) where
  grows := h.grows.trans (grows_put_file hplace)
  same other hother hmade := by
    have hne : other ≠ place := fun heq => hother (heq ▸ hfilled)
    rw [get?_put_of_ne hne]
    exact h.same other hother hmade
  file other entry hmade hentry := by
    rw [get?_put hplace.takes] at hentry
    split at hentry
    · exact .inr ⟨file, (Option.some.inj hentry).symm⟩
    · exact h.file other entry hmade hentry

/-- Nothing happens on the way of a look-up. -/
def Avoids (filled made : Location → Prop) (d : Disk) (purpose : Purpose) (p : Path) : Prop :=
  ∀ place ∈ d.route purpose p, ¬filled place ∧ ¬made place

/-- What a path reads does not change: the file that it finds is none of those filled, or nothing
happens on its way. -/
def ReadsSteadily (filled made : Location → Prop) (d : Disk) (p : Path) : Prop :=
  (∃ position file, d.find p = .ok (position, .file file) ∧
    ¬filled position.place ∧ ¬made position.place) ∨ Avoids filled made d .entry p

/-- The place that a path fills does not change: it is a place where no directory is made, or
nothing happens on its way. -/
def WritesSteadily (filled made : Location → Prop) (d : Disk) (p : Path) : Prop :=
  (∃ place, d.aim p = .ok place ∧ ¬made place) ∨ Avoids filled made d .target p

instance [DecidablePred filled] [DecidablePred made] (d : Disk) (purpose : Purpose) (p : Path) :
    Decidable (Avoids filled made d purpose p) :=
  inferInstanceAs (Decidable (∀ place ∈ d.route purpose p, ¬filled place ∧ ¬made place))

instance [DecidablePred filled] [DecidablePred made] (d : Disk) (p : Path) :
    Decidable (ReadsSteadily filled made d p) :=
  match hfind : d.find p with
  | .ok (position, .file file) =>
    decidable_of_iff
      ((¬filled position.place ∧ ¬made position.place) ∨ Avoids filled made d .entry p)
      (by simp [ReadsSteadily, hfind])
  | .ok (_, .directory) | .ok (_, .link _) | .error _ =>
    decidable_of_iff (Avoids filled made d .entry p) (by simp [ReadsSteadily, hfind])

instance [DecidablePred made] [DecidablePred filled] (d : Disk) (p : Path) :
    Decidable (WritesSteadily filled made d p) :=
  match haim : d.aim p with
  | .ok place =>
    decidable_of_iff (¬made place ∨ Avoids filled made d .target p)
      (by simp [WritesSteadily, haim])
  | .error _ =>
    decidable_of_iff (Avoids filled made d .target p) (by simp [WritesSteadily, haim])

theorem find_of_evolves (h : Evolves filled made d e) (hp : ReadsSteadily filled made d p) :
    e.find p = d.find p := by
  obtain ⟨position, x, hfind, hfilled, hmade⟩ | havoids := hp
  · obtain ⟨entry, hfind', hshape⟩ := find_of_grows h.grows hfind
    obtain ⟨y, rfl⟩ := Entry.eq_file_of_shape hshape
    have hget := h.same position.place hfilled hmade
    rw [(get?_of_find hfind').1, (get?_of_find hfind).1] at hget
    cases hget
    rw [hfind', hfind]
  · exact find_congr h.grows.cwd fun place hplace => h.same place (havoids place hplace).1
      (havoids place hplace).2

theorem aim_of_evolves (h : Evolves filled made d e) (hp : WritesSteadily filled made d p) :
    e.aim p = d.aim p := by
  obtain ⟨place, haim, hmade⟩ | havoids := hp
  · rw [haim]
    refine aim_of_grows h.grows haim fun entry hentry => ?_
    obtain hold | hfile := h.file place entry hmade hentry
    · exact (hasRoom_of_aim haim).1.file entry hold
    · exact hfile
  · exact aim_congr h.grows.cwd fun place hplace => h.same place (havoids place hplace).1
      (havoids place hplace).2

/-- A file that is copied over another one leaves the same file later. -/
theorem overwritten_of_grows (h : d.Grows e) (place origin : Location) (file : File) :
    e.overwritten place origin file = d.overwritten place origin file := by
  have hempty : ∀ d : Disk, (d.refilled place []).content = [] := by
    intro d
    rw [refilled]
    split <;> rfl
  rw [overwritten, overwritten]
  simp only [h.owns]
  split
  · exact File.ext rfl rfl (h.standing place)
  · rename_i howns
    exact File.ext ((hempty e).trans (hempty d).symm) (h.mode place (by simpa using howns))
      (h.standing place)

end Disk

namespace CopyJob

variable {filled made : Location → Prop} {d e : Disk} {job : CopyJob} {jobs : List CopyJob}
  {place : Location} {file : File}

/-- The place that a copy fills, and with what. -/
def effect (d : Disk) (job : CopyJob) : Except FileError (Location × File) :=
  d.copied job.source job.target

/-- What a copy comes to that has put a file in place. -/
def landed (d : Disk) (job : CopyJob) (file : File) : Except CopyFailure Nat :=
  if d.user.owns file then .ok file.content.length else .error ⟨job, .notPermitted⟩

/-- **A copy puts its effect in place and does nothing else.** -/
theorem attempt_eq (d : Disk) (job : CopyJob) :
    job.attempt d = match job.effect d with
      | .ok (place, file) => (d.put place (.file file), job.landed d file)
      | .error cause => (d, .error ⟨job, cause⟩) := by
  rw [attempt, Disk.copy, effect]
  cases d.copied job.source job.target with
  | error e => rfl
  | ok write =>
    simp only [landed]
    cases d.user.owns write.2 with
    | true => rfl
    | false => rfl

theorem effect_eq_ok (h : job.effect d = .ok (place, file)) :
    ∃ position source, d.find job.source = .ok (position, .file source) ∧
      d.user.may .read source = true ∧ d.writable job.target = .ok place ∧
      file = d.overwritten place position.place source := by
  unfold effect Disk.copied at h
  split at h
  · rename_i position source hfind
    split at h
    · rename_i hmay
      split at h
      · rename_i hwritable
        cases h
        exact ⟨position, source, hfind, hmay, hwritable, rfl⟩
      · cases h
    · cases h
  · cases h
  · cases h

theorem exists_effect_of_ok {bytes : Nat} (h : (job.attempt d).2 = .ok bytes) :
    ∃ place file, job.effect d = .ok (place, file) ∧ d.user.owns file = true := by
  rw [attempt_eq] at h
  cases heffect : job.effect d with
  | error cause =>
    rw [heffect] at h
    cases h
  | ok write =>
    obtain ⟨place, file⟩ := write
    refine ⟨place, file, rfl, ?_⟩
    rw [heffect] at h
    cases howns : d.user.owns file with
    | true => rfl
    | false =>
      simp only [landed, howns] at h
      cases h

/-- A copy that succeeds leaves a file with the content and the mode of its source; copied onto
itself, a file is emptied. -/
theorem effect_eq_ok_of_owns (h : job.effect d = .ok (place, file))
    (howns : d.user.owns file = true) :
    ∃ position source, d.find job.source = .ok (position, .file source) ∧
      d.user.may .read source = true ∧ d.writable job.target = .ok place ∧
      file.content = (if position.place = place then [] else source.content) ∧
      file.mode = source.mode := by
  obtain ⟨position, source, hfind, hmay, hwritable, rfl⟩ := effect_eq_ok h
  refine ⟨position, source, hfind, hmay, hwritable, ?_, ?_⟩
  · rw [Disk.overwritten_of_owns howns]
  · rw [Disk.overwritten_of_owns howns]

theorem receives_of_effect (h : job.effect d = .ok (place, file)) : d.Receives place file := by
  obtain ⟨position, source, -, -, hwritable, rfl⟩ := effect_eq_ok h
  exact Disk.receives_overwritten hwritable _ _

/-- What happens at given places does not matter to a copy. -/
structure Steady (filled made : Location → Prop) (d : Disk) (job : CopyJob) : Prop where
  source : d.ReadsSteadily filled made job.source
  target : d.WritesSteadily filled made job.target

theorem steady_iff : job.Steady filled made d ↔
    d.ReadsSteadily filled made job.source ∧ d.WritesSteadily filled made job.target :=
  ⟨fun h => ⟨h.source, h.target⟩, fun h => ⟨h.1, h.2⟩⟩

instance [DecidablePred filled] [DecidablePred made] (d : Disk) (job : CopyJob) :
    Decidable (job.Steady filled made d) :=
  decidable_of_iff _ steady_iff.symm

/-- **A copy comes to the same while a disk evolves**, unless the file that it fills has come to be
one that the user may not write to. -/
theorem effect_of_evolves (h : Disk.Evolves filled made d e) (hjob : job.Steady filled made d) :
    job.effect e = job.effect d ∨
      ∃ place file, job.effect d = .ok (place, file) ∧ e.isOpen place = false ∧
        job.effect e = .error .permissionDenied := by
  have huser := h.grows.user
  rw [effect, effect, Disk.copied, Disk.copied, Disk.find_of_evolves h hjob.source, Disk.writable,
    Disk.writable, Disk.aim_of_evolves h hjob.target, huser]
  split
  · rename_i position source _
    split
    · cases d.aim job.target with
      | error cause => exact .inl rfl
      | ok place =>
        simp only [bind, Except.bind, pure, Except.pure]
        cases hopen : e.isOpen place with
        | true => simp [h.grows.isOpen hopen, Disk.overwritten_of_grows h.grows]
        | false =>
          cases d.isOpen place with
          | true => simp [hopen]
          | false => simp
    · exact .inl rfl
  · exact .inl rfl
  · exact .inl rfl

/-- A copy that can be made later could have been made from the start. -/
theorem effect_of_evolves_ok (h : Disk.Evolves filled made d e) (hjob : job.Steady filled made d)
    (heffect : job.effect e = .ok (place, file)) : job.effect d = .ok (place, file) := by
  obtain hsame | ⟨_, _, -, -, hdenied⟩ := effect_of_evolves h hjob
  · rw [← hsame, heffect]
  · rw [heffect] at hdenied
    cases hdenied

/-- Copies fill only places that are given. -/
def FillsOnly (filled : Location → Prop) (d : Disk) (job : CopyJob) : Prop :=
  ∀ place file, job.effect d = .ok (place, file) → filled place

theorem evolves_attempt (h : Disk.Evolves filled made d e) (hjob : job.Steady filled made d)
    (hfills : job.FillsOnly filled d) : Disk.Evolves filled made d (job.attempt e).1 := by
  rw [attempt_eq]
  cases heffect : job.effect e with
  | error cause => exact h
  | ok write =>
    exact h.put (hfills _ _ (effect_of_evolves_ok h hjob heffect)) (receives_of_effect heffect)

/-- In copies that do not fail, each one succeeds, and so do all behind it. -/
theorem runEach_cons_of_failures (h : (runEach d (job :: jobs)).2.failures = []) :
    (∃ bytes, (job.attempt d).2 = .ok bytes) ∧
      (runEach (job.attempt d).1 jobs).2.failures = [] := by
  rw [runEach_cons] at h
  cases houtcome : (job.attempt d).2 with
  | ok bytes =>
    rw [houtcome] at h
    exact ⟨⟨bytes, rfl⟩, h⟩
  | error failure =>
    rw [houtcome] at h
    cases h

/-- Copies that nothing meddles with fill the places that they would fill alone. -/
theorem evolves_runEach (h : Disk.Evolves filled made d e)
    (hsteady : ∀ job ∈ jobs, job.Steady filled made d)
    (hfills : ∀ job ∈ jobs, job.FillsOnly filled d) :
    Disk.Evolves filled made d (runEach e jobs).1 := by
  induction jobs generalizing e with
  | nil => exact h
  | cons job jobs ih =>
    obtain ⟨hjob, hsteady⟩ := List.forall_mem_cons.1 hsteady
    obtain ⟨hfill, hfills⟩ := List.forall_mem_cons.1 hfills
    rw [runEach_cons]
    exact ih (evolves_attempt h hjob hfill) hsteady hfills

end CopyJob

end StyleAssets
