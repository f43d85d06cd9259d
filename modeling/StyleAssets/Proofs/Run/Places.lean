import StyleAssets.Proofs.Rewrite.Contained
import StyleAssets.Proofs.Run.Undisturbed

/-!
# Where a run writes

A run fills files with copies and with the texts of its sheets, each as it is denoted when its sheet
comes. All other files keep what they hold, whether the run ends well or not.

* `Config.copyPlaces`, `Config.textPlaces` — the places of the copies and of the text of one sheet.
* `Config.along` — something about each sheet that a run comes to, on the disk that it finds.
* `Run.get?_processAll` — **main result**: a file in none of these places keeps what it holds,
  proved from `get?_process`, which says the same of one sheet.
-/

namespace StyleAssets

namespace CopyJob

theorem filled_runEach {d e : Disk} (h : d.Filled e) (jobs : List CopyJob) :
    d.Filled (runEach e jobs).1 := by
  induction jobs generalizing e with
  | nil => exact h
  | cons job jobs ih =>
    rw [runEach_cons, attempt_eq]
    cases heffect : job.effect e with
    | error cause => exact ih h
    | ok filled => exact ih (h.put (receives_of_effect heffect))

end CopyJob

namespace Config

variable {c : Config} {d e : Disk} {p : Path} {sheet : Stylesheet}

/-- Where the copies for a sheet go. -/
def copyPlaces (c : Config) (d : Disk) (p : Path) : List Location :=
  (c.copies d p).filterMap fun job => (d.writable job.target).toOption

/-- Where the text of a sheet goes, if it comes to that. -/
def textPlaces (c : Config) (d : Disk) (p : Path) : List Location :=
  match Stylesheet.read d p, c.outDir, c.output? p with
  | .ok sheet, some directory, some target =>
    match (c.rewriteOptions.apply d sheet).disk.makeDirectories directory with
    | (made, .ok ()) => (made.writable target).toOption.toList
    | _ => []
  | _, _, _ => []

/-- The disk that a sheet leaves, unless the run ends with it. -/
def after? [Minifier] (c : Config) (d : Disk) (p : Path) : Option Disk :=
  match Stylesheet.read d p with
  | .ok sheet =>
    let applied := c.rewriteOptions.apply d sheet
    c.store applied.disk p (Run.textOf c applied)
  | .error _ => none

/-- Something about each sheet that a run comes to, on the disk that it finds. -/
def along [Minifier] {α : Type} (c : Config) (about : Disk → Path → List α) (d : Disk) :
    List Path → List α
  | [] => []
  | p :: rest => about d p ++ match c.after? d p with
    | some e => c.along about e rest
    | none => []

theorem along_singleton [Minifier] {α : Type} (c : Config) (about : Disk → Path → List α) (d : Disk)
    (p : Path) : c.along about d [p] = about d p := by
  rw [along]
  split
  · exact List.append_nil _
  · exact List.append_nil _

theorem filled_apply (c : Config) (d : Disk) (sheet : Stylesheet) :
    d.Filled (c.rewriteOptions.apply d sheet).disk := by
  rw [(c.rewriteOptions.apply_runAll d sheet).1]
  exact CopyJob.filled_runEach (.refl d) _

/-- Rewriting a sheet changes no file but those that its copies go to. -/
theorem get?_apply (hread : Stylesheet.read d p = .ok sheet) {place : Location}
    (hplace : place ∉ c.copyPlaces d p) :
    (c.rewriteOptions.apply d sheet).disk.tree.get? place = d.tree.get? place := by
  by_contra hchanged
  rw [(c.rewriteOptions.apply_runAll d sheet).1] at hchanged
  obtain ⟨job, hjob, hwritable⟩ :=
    CopyJob.exists_target_of_changed (Disk.Filled.refl d) rfl hchanged
  refine hplace (List.mem_filterMap.2 ⟨job, ?_, by rw [hwritable]; rfl⟩)
  rw [copies_of_read hread]
  exact hjob

theorem mem_textPlaces (hread : Stylesheet.read d p = .ok sheet) {directory target : Path}
    {made : Disk} {place : Location} (hdirectory : c.outDir = some directory)
    (htarget : c.output? p = some target)
    (hmade : (c.rewriteOptions.apply d sheet).disk.makeDirectories directory = (made, .ok ()))
    (hwritable : made.writable target = .ok place) : place ∈ c.textPlaces d p := by
  rw [textPlaces, hread, hdirectory, htarget]
  simp only [hmade, hwritable]
  exact List.mem_singleton_self _

/-- A text that goes somewhere is written into the output directory, which has been made. -/
theorem exists_of_mem_textPlaces {place : Location} (h : place ∈ c.textPlaces d p) :
    ∃ sheet directory target made, Stylesheet.read d p = .ok sheet ∧
      c.outDir = some directory ∧ c.output? p = some target ∧
      (c.rewriteOptions.apply d sheet).disk.makeDirectories directory = (made, .ok ()) ∧
      made.writable target = .ok place := by
  unfold textPlaces at h
  split at h
  · rename_i sheet directory target hread hdirectory htarget
    split at h
    · rename_i made hmade
      cases hwritable : made.writable target with
      | error cause =>
        rw [hwritable] at h
        cases h
      | ok other =>
        rw [hwritable] at h
        obtain rfl := List.mem_singleton.1 h
        exact ⟨sheet, directory, target, made, hread, hdirectory, htarget, hmade, hwritable⟩
    · cases h
  · cases h

/-- What holds on every disk of a run gives what is to be shown about its sheets. -/
theorem forall_along [Minifier] {α : Type} {about : Disk → Path → List α} (good : α → Prop)
    (keeps : Disk → Prop) {sheets : List Path}
    (habout : ∀ p ∈ sheets, ∀ d, keeps d → ∀ x ∈ about d p, good x)
    (hafter : ∀ p ∈ sheets, ∀ d e, keeps d → c.after? d p = some e → keeps e) (hd : keeps d) :
    ∀ x ∈ c.along about d sheets, good x := by
  induction sheets generalizing d with
  | nil => exact nofun
  | cons p rest ih =>
    obtain ⟨hp, habout⟩ := List.forall_mem_cons.1 habout
    obtain ⟨hp', hafter⟩ := List.forall_mem_cons.1 hafter
    intro x hx
    rw [along] at hx
    obtain hx | hx := List.mem_append.1 hx
    · exact hp d hd x hx
    · split at hx
      · rename_i e he
        exact ih habout hafter (hp' d e hd he) x hx
      · cases hx

end Config

namespace Run

variable {c : Config} {r r' : Run} {p : Path} {place : Location} {file : File}

/-- The text of a sheet is all that handing it on writes. -/
theorem get?_emit (r : Run) (css : Text) (hget : r.disk.tree.get? place = some (.file file))
    (hne : ∀ directory target made, c.outDir = some directory → c.output? p = some target →
      r.disk.makeDirectories directory = (made, .ok ()) → made.writable target ≠ .ok place) :
    (emit c r p css).1.disk.tree.get? place = some (.file file) := by
  rw [emit]
  cases hdirectory : c.outDir with
  | none => exact hget
  | some directory =>
    simp only [save]
    cases hname : p.fileName? with
    | none => exact hget
    | some name =>
      simp only [(claim_spec r (directory.join ⟨name⟩)).1]
      cases hmade : r.disk.makeDirectories directory with
      | mk made result =>
        have hkept := (Disk.furnishes_of_makeDirectories hmade).keeps hget
        cases result with
        | error cause => exact hkept
        | ok _ =>
          have htarget : c.output? p = some (directory.join ⟨name⟩) := by
            rw [Config.output?, hdirectory, hname]
          have hother := hne directory _ made hdirectory htarget hmade
          simp only [Disk.write]
          cases hwritable : made.writable (directory.join ⟨name⟩) with
          | error cause => exact hkept
          | ok filled =>
            have hne : place ≠ filled := by
              rintro rfl
              exact hother hwritable
            exact (Disk.get?_put_of_ne hne _).trans hkept

variable [Minifier]

/-- **One sheet changes no file** but those that its copies and its text go to. -/
theorem get?_process (r : Run) (p : Path)
    (hget : r.disk.tree.get? place = some (.file file))
    (hcopy : place ∉ c.copyPlaces r.disk p) (htext : place ∉ c.textPlaces r.disk p) :
    (process c r p).1.disk.tree.get? place = some (.file file) := by
  rw [process]
  cases hread : Stylesheet.read r.disk p with
  | error cause => exact hget
  | ok sheet =>
    simp only
    generalize hsaid : Run.say { r with disk := (c.rewriteOptions.apply r.disk sheet).disk } _ =
      said
    have hdisk : said.disk = (c.rewriteOptions.apply r.disk sheet).disk := by
      rw [← hsaid]
      rfl
    have hemit := get?_emit (c := c) (p := p) said
      (textOf c (c.rewriteOptions.apply r.disk sheet))
      (by rw [hdisk, Config.get?_apply hread hcopy, hget])
      (fun directory target made hdirectory htarget hmade hwritable =>
        htext (Config.mem_textPlaces hread hdirectory htarget (hdisk ▸ hmade) hwritable))
    rw [textOf] at hemit
    split
    · rename_i heq
      rw [heq] at hemit
      exact hemit
    · rename_i heq
      rw [heq] at hemit
      exact hemit

theorem process_after? (c : Config) (r : Run) (p : Path) :
    match c.after? r.disk p with
    | some e => ∃ r', process c r p = (r', .ok ()) ∧ r'.disk = e
    | none => (process c r p).2 ≠ .ok () := by
  cases hafter : c.after? r.disk p with
  | some e =>
    unfold Config.after? at hafter
    split at hafter
    · rename_i sheet hread
      obtain ⟨r', hprocess, hdisk, -⟩ := exists_processes hread hafter
      exact ⟨r', hprocess, hdisk⟩
    · cases hafter
  | none =>
    intro hok
    have heq : process c r p = ((process c r p).1, .ok ()) := Prod.ext rfl hok
    obtain ⟨sheet, hprocesses⟩ := process_eq_ok heq
    rw [Config.after?, hprocesses.read] at hafter
    cases hprocesses.store.symm.trans hafter

/-- **A run changes no file** but those that copies and texts go to. -/
theorem get?_processAll (r : Run) (sheets : List Path)
    (hget : r.disk.tree.get? place = some (.file file))
    (hcopy : place ∉ c.along c.copyPlaces r.disk sheets)
    (htext : place ∉ c.along c.textPlaces r.disk sheets) :
    (processAll c r sheets).1.disk.tree.get? place = some (.file file) := by
  induction sheets generalizing r with
  | nil => exact hget
  | cons p rest ih =>
    rw [Config.along, List.mem_append, not_or] at hcopy htext
    have hkept := get?_process r p hget hcopy.1 htext.1
    have hafter := process_after? c r p
    rw [processAll]
    split
    · rename_i heq
      rw [heq] at hkept
      exact hkept
    · rename_i after heq
      rw [heq] at hkept
      split at hafter
      · rename_i e he
        obtain ⟨r', hprocess, rfl⟩ := hafter
        rw [heq] at hprocess
        cases hprocess
        rw [he] at hcopy htext
        exact ih after hkept hcopy.2 htext.2
      · rw [heq] at hafter
        exact absurd rfl hafter

end Run

end StyleAssets
