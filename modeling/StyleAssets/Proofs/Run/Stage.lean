import StyleAssets.Proofs.Asset.Order
import StyleAssets.Proofs.FileTree.Directory
import StyleAssets.Proofs.Rewrite.AllOrNothing
import StyleAssets.Run

/-!
# The stages of a run

What a run does to the disk, sheet by sheet, and what it says and prints on the way.

* `RewriteOptions.apply_runAll`, `RewriteOptions.apply_congr` — rewriting a sheet does to the disk
  what its copies do, and depends on the disk only through them.
* `Config.store` — the text of a sheet goes to its file.
* `Run.process_of_read` — what processing a sheet comes to; from it `process_eq_ok` and
  `exists_processes`, with `Run.Processes` for a sheet that is read, rewritten and stored;
  `processAll_cons_eq_ok` for several of them.
* `Run.ofPaths_eq_ok`, `Run.ofPaths_of_processAll` — when a run ends well, and how it ends;
  `Run.ofPaths_of_singleton` for a run over one sheet.
-/

namespace StyleAssets

/-! ## Copies -/

namespace CopyJob

theorem grows_attempt (d : Disk) (job : CopyJob) : d.Grows (job.attempt d).1 := by
  rw [attempt_eq]
  cases heffect : job.effect d with
  | error cause => exact .refl d
  | ok write => exact Disk.grows_put_file (receives_of_effect heffect)

theorem grows_runEach (d : Disk) (jobs : List CopyJob) : d.Grows (runEach d jobs).1 := by
  induction jobs generalizing d with
  | nil => exact .refl d
  | cons job jobs ih =>
    rw [runEach_cons]
    exact (grows_attempt d job).trans (ih _)

theorem grows_runAll (d : Disk) (jobs : List CopyJob) : d.Grows (runAll d jobs).1 :=
  grows_runEach d (firstOfEach jobs)

end CopyJob

/-! ## Rewriting -/

namespace RewriteOptions

variable {σ : Type} [StyleTree σ] {o : RewriteOptions} {d e : Disk} {sheet : σ}

theorem jobs_of_error {why : MissingSetting}
    (h : o.settings (StyleTree.sourceFile sheet) = .error why) : o.jobs d sheet = [] := by
  refine List.filterMap_eq_nil_iff.2 fun x _ => ?_
  rw [outcome, process, h]
  rfl

variable [LawfulStyleTree σ]

theorem jobs_of_settings {s : Settings} (h : o.settings (StyleTree.sourceFile sheet) = .ok s) :
    (s.plan d.cwdPath? sheet).2.filterMap Outcome.job? = o.jobs d sheet := by
  rw [(s.plan_spec d.cwdPath? sheet).2, List.filterMap_map, jobs]
  refine List.filterMap_congr fun x _ => ?_
  rw [outcome, process, h]
  rfl

/-- Rewriting a sheet does to the disk what its copies do; what they say and which of them fail is
told. -/
theorem apply_runAll (o : RewriteOptions) (d : Disk) (sheet : σ) :
    (o.apply d sheet).disk = (CopyJob.runAll d (o.jobs d sheet)).1 ∧
    (o.apply d sheet).report.failures = (CopyJob.runAll d (o.jobs d sheet)).2.1.failures ∧
    ∀ entry ∈ (CopyJob.runAll d (o.jobs d sheet)).2.2, entry ∈ (o.apply d sheet).log := by
  cases hsettings : o.settings (StyleTree.sourceFile sheet) with
  | error why =>
    rw [jobs_of_error hsettings, apply, hsettings]
    exact ⟨rfl, rfl, fun entry hentry => absurd hentry List.not_mem_nil⟩
  | ok s =>
    rw [← jobs_of_settings hsettings, apply, hsettings]
    simp only [Settings.apply]
    cases hjobs : (s.plan d.cwdPath? sheet).2.filterMap Outcome.job? with
    | nil => exact ⟨rfl, rfl, fun entry hentry => absurd hentry List.not_mem_nil⟩
    | cons job jobs =>
      simp only
      split
      · refine ⟨rfl, rfl, fun entry hentry => ?_⟩
        simp only [List.mem_append]
        exact .inl (.inr hentry)
      · refine ⟨rfl, rfl, fun entry hentry => ?_⟩
        simp only [List.mem_append]
        exact .inl (.inl (.inr hentry))

end RewriteOptions

/-! ## Storing a sheet -/

namespace Config

variable {c : Config} {d e : Disk} {p : Path} {css : Text}

/-- The file that the text of a sheet goes to. -/
def output? (c : Config) (p : Path) : Option Path :=
  match c.outDir, p.fileName? with
  | some directory, some name => some (directory.join ⟨name⟩)
  | _, _ => none

/-- Puts the text of a sheet into its file, if it goes to one. -/
def store (c : Config) (d : Disk) (p : Path) (css : Text) : Option Disk :=
  match c.outDir with
  | none => some d
  | some directory =>
    match p.fileName?, d.makeDirectories directory with
    | some name, (made, .ok ()) =>
      (made.write (directory.join ⟨name⟩) (Utf8.encode css)).toOption
    | _, _ => none

/-- A text that is stored goes nowhere or to its file, and the directories of the file are there. -/
theorem store_eq_some (h : c.store d p css = some e) :
    (c.outDir = none ∧ e = d) ∨
    ∃ directory target made place, c.outDir = some directory ∧ c.output? p = some target ∧
      d.makeDirectories directory = (made, .ok ()) ∧ made.writable target = .ok place ∧
      e = made.put place (.file (made.refilled place (Utf8.encode css))) := by
  unfold store at h
  split at h
  · rename_i hnone
    cases h
    exact .inl ⟨hnone, rfl⟩
  · rename_i directory hdirectory
    split at h
    · rename_i name made hname hmade
      cases hwritable : made.writable (directory.join ⟨name⟩) with
      | error cause =>
        rw [Disk.write, hwritable] at h
        cases h
      | ok place =>
        rw [Disk.write, hwritable] at h
        cases h
        exact .inr ⟨directory, directory.join ⟨name⟩, made, place, hdirectory,
          by rw [output?, hdirectory, hname], hmade, hwritable, rfl⟩
    · cases h

theorem exists_name_of_output? {directory target : Path} (hdirectory : c.outDir = some directory)
    (htarget : c.output? p = some target) :
    ∃ name, p.fileName? = some name ∧ target = directory.join ⟨name⟩ := by
  rw [output?, hdirectory] at htarget
  cases hname : p.fileName? with
  | none =>
    rw [hname] at htarget
    cases htarget
  | some name =>
    rw [hname] at htarget
    cases htarget
    exact ⟨name, rfl, rfl⟩

theorem store_of_none (d : Disk) (p : Path) (css : Text) (h : c.outDir = none) :
    c.store d p css = some d := by
  rw [store, h]

theorem store_of_made {directory target : Path} {made : Disk} {place : Location} (css : Text)
    (hdirectory : c.outDir = some directory) (htarget : c.output? p = some target)
    (hmade : d.makeDirectories directory = (made, .ok ()))
    (hwritable : made.writable target = .ok place) :
    c.store d p css = some (made.put place (.file (made.refilled place (Utf8.encode css)))) := by
  obtain ⟨name, hname, rfl⟩ := exists_name_of_output? hdirectory htarget
  simp only [store, hdirectory, hname, hmade, Disk.write, hwritable]
  rfl

theorem grows_store (h : c.store d p css = some e) : d.Grows e := by
  obtain ⟨-, rfl⟩ | ⟨directory, target, made, place, -, -, hmade, hwritable, rfl⟩ := store_eq_some h
  · exact .refl _
  · exact (Disk.furnishes_of_makeDirectories hmade).grows.trans
      (Disk.grows_put_file (Disk.receives_refilled hwritable _))

end Config

/-! ## Processing a sheet -/

/-- A stylesheet as a run comes to it: its path, the disk at that time, and what is read there. -/
structure Stage where
  path : Path
  disk : Disk
  sheet : Stylesheet

/-- A sheet could not be read or its text not be written; a run ends there. -/
def RunError.stops : RunError → Bool
  | unreadable _ _ | noFileName _ | uncreatable _ _ | unwritable _ _ => true
  | noStylesheets | invalidConfig _ | rejected _ => false

namespace Run

variable {c : Config} {r r' : Run} {p : Path}

/-- The text of a sheet as a run hands it on. -/
def textOf [Minifier] (c : Config) (applied : Applied Stylesheet) : Text :=
  (minifyIf c.minify applied.sheet.render).1

end Run

namespace Stage

def applied (c : Config) (s : Stage) : Applied Stylesheet :=
  c.rewriteOptions.apply s.disk s.sheet

def report (c : Config) (s : Stage) : Report := (s.applied c).report

/-- The text that is handed on. -/
def text [Minifier] (c : Config) (s : Stage) : Text := Run.textOf c (s.applied c)

/-- All that is said before the text is handed on. -/
def log [Minifier] (c : Config) (s : Stage) : Log :=
  s.sheet.warnings ++ (s.applied c).log ++ Run.progressLog s.path (s.report c).rewritten ++
    (minifyIf c.minify (s.applied c).sheet.render).2

end Stage

namespace Run

variable {c : Config} {r r' : Run} {p : Path}

/-- Noting a target only says something. -/
theorem claim_spec (r : Run) (target : Path) :
    (r.claim target).disk = r.disk ∧ (r.claim target).summary = r.summary ∧
      r.log <+: (r.claim target).log := by
  unfold claim
  split
  · exact ⟨rfl, rfl, List.prefix_append _ _⟩
  · exact ⟨rfl, rfl, List.prefix_rfl⟩

/-- What a run prints and notes when it hands on a text. -/
def handOn (c : Config) (r : Run) (p : Path) (css : Text) : Run :=
  match c.output? p with
  | some target => r.claim target
  | none => r.print css

theorem handOn_spec (c : Config) (r : Run) (p : Path) (css : Text) :
    (r.handOn c p css).disk = r.disk ∧ (r.handOn c p css).summary = r.summary ∧
      r.log <+: (r.handOn c p css).log := by
  unfold handOn
  split
  · exact claim_spec r _
  · exact ⟨rfl, rfl, List.prefix_rfl⟩

/-- A text is handed on exactly if it can be stored. -/
theorem emit_spec (c : Config) (r : Run) (p : Path) (css : Text) :
    match c.store r.disk p css with
    | some e => emit c r p css = ({ r.handOn c p css with disk := e }, .ok ())
    | none => ∃ r' e, emit c r p css = (r', .error e) ∧ e.stops = true := by
  rw [emit, Config.store, handOn, Config.output?]
  cases c.outDir with
  | none => rfl
  | some directory =>
    simp only [save]
    cases p.fileName? with
    | none => exact ⟨_, _, rfl, rfl⟩
    | some name =>
      simp only [(claim_spec r (directory.join ⟨name⟩)).1]
      obtain ⟨made, result⟩ := r.disk.makeDirectories directory
      cases result with
      | error cause => exact ⟨_, _, rfl, rfl⟩
      | ok _ =>
        simp only
        cases made.write (directory.join ⟨name⟩) (Utf8.encode css) with
        | error cause => exact ⟨_, _, rfl, rfl⟩
        | ok e => rfl

/-- The disk does not matter to what is printed and noted. -/
theorem handOn_disk (c : Config) (r : Run) (d e : Disk) (p : Path) (css : Text) :
    { handOn c { r with disk := d } p css with disk := e } =
      { handOn c r p css with disk := e } := by
  unfold handOn claim
  split
  · dsimp only
    split
    · rfl
    · rfl
  · rfl

variable [Minifier]

/-- A run after one more sheet, the disk aside. -/
def advance (c : Config) (r : Run) (s : Stage) : Run :=
  { (r.say (s.log c)).handOn c s.path (s.text c) with summary := r.summary.add (s.report c) }

/-- What is left to do with a sheet that is read. -/
theorem process_eq_emit (c : Config) (r : Run) (s : Stage) (hdisk : s.disk = r.disk)
    (hread : Stylesheet.read s.disk s.path = .ok s.sheet) :
    process c r s.path =
      match emit c { r.say (s.log c) with disk := (s.applied c).disk } s.path (s.text c) with
      | (r, .error e) => (r, .error e)
      | (r, .ok ()) => ({ r with summary := r.summary.add (s.report c) }, .ok ()) := by
  rw [process, ← hdisk, hread]
  rfl

/-- **A sheet that is read is processed exactly if its text can be stored**, rejected or not. -/
theorem process_of_read (c : Config) (r : Run) (s : Stage) (hdisk : s.disk = r.disk)
    (hread : Stylesheet.read s.disk s.path = .ok s.sheet) :
    match c.store (s.applied c).disk s.path (s.text c) with
    | some e => process c r s.path = ({ r.advance c s with disk := e }, .ok ())
    | none => ∃ r' e, process c r s.path = (r', .error e) ∧ e.stops = true := by
  have hprocess := process_eq_emit c r s hdisk hread
  have hspec := emit_spec c { r.say (s.log c) with disk := (s.applied c).disk } s.path (s.text c)
  dsimp only at hspec
  split at hspec
  · rename_i e hstore
    rw [handOn_disk] at hspec
    rw [hprocess, hspec]
    have hsummary := (handOn_spec c (r.say (s.log c)) s.path (s.text c)).2.1
    simp only [hsummary, advance]
    rfl
  · obtain ⟨r', e, hemit, hstops⟩ := hspec
    exact ⟨r', e, by rw [hprocess, hemit], hstops⟩

/-- A sheet is processed, or the run ends with it. -/
theorem process_cases (c : Config) (r : Run) (p : Path) :
    (∃ s e, s.path = p ∧ s.disk = r.disk ∧ Stylesheet.read s.disk s.path = .ok s.sheet ∧
      c.store (s.applied c).disk s.path (s.text c) = some e ∧
      process c r p = ({ r.advance c s with disk := e }, .ok ())) ∨
    ∃ r' e, process c r p = (r', .error e) ∧ e.stops = true := by
  cases hread : Stylesheet.read r.disk p with
  | error cause => exact .inr ⟨r, .unreadable p cause, by rw [process, hread], rfl⟩
  | ok sheet =>
    have hspec := process_of_read c r ⟨p, r.disk, sheet⟩ rfl hread
    split at hspec
    · rename_i e hstore
      exact .inl ⟨_, e, rfl, rfl, hread, hstore, hspec⟩
    · exact .inr hspec

/-- One sheet is read, rewritten and stored. -/
structure Processes (c : Config) (r : Run) (p : Path) (sheet : Stylesheet) (r' : Run) : Prop where
  read : Stylesheet.read r.disk p = .ok sheet
  store : c.store (c.rewriteOptions.apply r.disk sheet).disk p
    (textOf c (c.rewriteOptions.apply r.disk sheet)) = some r'.disk
  summary : r'.summary = r.summary.add (c.rewriteOptions.apply r.disk sheet).report
  log : ∀ entry ∈ r.log ++ (c.rewriteOptions.apply r.disk sheet).log, entry ∈ r'.log

theorem process_eq_ok (h : process c r p = (r', .ok ())) : ∃ sheet, Processes c r p sheet r' := by
  obtain ⟨s, e, rfl, hdisk, hread, hstore, hprocess⟩ | ⟨after, e, hprocess, -⟩ :=
    process_cases c r p
  · rw [h] at hprocess
    cases hprocess
    rw [Stage.text, Stage.applied, hdisk] at hstore
    rw [hdisk] at hread
    refine ⟨s.sheet, hread, hstore, ?_, fun entry hentry => ?_⟩
    · rw [← hdisk]
      rfl
    · refine (handOn_spec c (r.say (s.log c)) s.path (s.text c)).2.2.subset ?_
      rw [← hdisk] at hentry
      simp only [say, Stage.log, Stage.applied, List.mem_append] at hentry ⊢
      tauto
  · rw [h] at hprocess
    cases hprocess

theorem exists_processes {sheet : Stylesheet} {e : Disk}
    (hread : Stylesheet.read r.disk p = .ok sheet)
    (hstore : c.store (c.rewriteOptions.apply r.disk sheet).disk p
      (textOf c (c.rewriteOptions.apply r.disk sheet)) = some e) :
    ∃ r', process c r p = (r', .ok ()) ∧ r'.disk = e ∧
      r'.summary = r.summary.add (c.rewriteOptions.apply r.disk sheet).report := by
  have hspec := process_of_read c r ⟨p, r.disk, sheet⟩ rfl hread
  rw [Stage.text, Stage.applied, hstore] at hspec
  exact ⟨_, hspec, rfl, rfl⟩

theorem Processes.grows {sheet : Stylesheet} (h : Processes c r p sheet r') :
    r.disk.Grows r'.disk := by
  have hcopies := CopyJob.grows_runAll r.disk (c.rewriteOptions.jobs r.disk sheet)
  rw [← (c.rewriteOptions.apply_runAll r.disk sheet).1] at hcopies
  exact hcopies.trans (Config.grows_store h.store)

/-- A run over several sheets processes the first one and goes on with the others. -/
theorem processAll_cons_eq_ok {rest : List Path} (h : processAll c r (p :: rest) = (r', .ok ())) :
    ∃ after sheet, Processes c r p sheet after ∧ processAll c after rest = (r', .ok ()) := by
  rw [processAll] at h
  split at h
  · cases h
  · rename_i after hprocess
    obtain ⟨sheet, hprocesses⟩ := process_eq_ok hprocess
    exact ⟨after, sheet, hprocesses, h⟩

theorem grows_processAll {sheets : List Path} (h : processAll c r sheets = (r', .ok ())) :
    r.disk.Grows r'.disk := by
  induction sheets generalizing r with
  | nil =>
    cases h
    exact .refl _
  | cons p rest ih =>
    obtain ⟨after, sheet, hprocesses, hrest⟩ := processAll_cons_eq_ok h
    exact hprocesses.grows.trans (ih hrest)

/-- A run that ends well has found sheets and passed the checks; it has processed all sheets and
left none alone for a failed copy. -/
theorem ofPaths_eq_ok {d : Disk} {paths : List Path} {summary : RunSummary}
    (h : ofPaths c d paths = (r, .ok summary)) :
    d.stylesheets paths ≠ [] ∧
    ((c.validate d (d.stylesheets paths)).finish).1 = .ok () ∧
    ∃ log r', processAll c { disk := d, log } (d.stylesheets paths) = (r', .ok ()) ∧
      r.disk = r'.disk ∧ r'.summary = summary ∧ summary.rejected = [] ∧ r'.log <+: r.log := by
  unfold ofPaths at h
  simp only at h
  split at h
  · cases h
  · rename_i hsheets
    split at h
    · cases h
    · rename_i log hfinish
      rw [start] at h
      split at h
      · cases h
      · rename_i r' hall
        obtain ⟨hr, hverdict⟩ := Prod.mk.inj h
        unfold RunSummary.verdict at hverdict
        split at hverdict
        · rename_i hrejected
          cases hverdict
          subst hr
          refine ⟨by simpa using hsheets, by rw [hfinish], log, r', ?_, rfl, rfl,
            by simpa using hrejected, List.prefix_append _ _⟩
          simpa [say] using hall
        · cases hverdict

/-- A run that finds sheets, passes the checks and processes all of them ends with the verdict on
its totals. -/
theorem ofPaths_of_processAll {d : Disk} {paths : List Path} {log : Log}
    (hsheets : d.stylesheets paths ≠ [])
    (hvalid : (c.validate d (d.stylesheets paths)).finish = (.ok (), log))
    (hall : processAll c { disk := d, log } (d.stylesheets paths) = (r, .ok ())) :
    ∃ r', ofPaths c d paths = (r', r.summary.verdict) ∧ r'.disk = r.disk := by
  have hsome : (d.stylesheets paths).isEmpty = false := by simpa using hsheets
  have hsaid : ({ disk := d } : Run).say log = { disk := d, log } := by simp [say]
  rw [ofPaths]
  simp only [hsome, hvalid, hsaid, start, hall]
  exact ⟨_, rfl, rfl⟩

/-- A run over one sheet leaves what has been stored, with the verdict on what became of the
sheet. -/
theorem ofPaths_of_singleton {d e : Disk} {paths : List Path} {log : Log} {sheet : Stylesheet}
    (hpaths : d.stylesheets paths = [p]) (hvalid : (c.validate d [p]).finish = (.ok (), log))
    (hread : Stylesheet.read d p = .ok sheet)
    (hstore : c.store (c.rewriteOptions.apply d sheet).disk p
      (textOf c (c.rewriteOptions.apply d sheet)) = some e) :
    ∃ r, ofPaths c d paths =
        (r, (({} : RunSummary).add (c.rewriteOptions.apply d sheet).report).verdict) ∧
      r.disk = e := by
  obtain ⟨r, hprocess, hr, hsummary⟩ := exists_processes (r := { disk := d, log }) hread hstore
  have hall : processAll c { disk := d, log } (d.stylesheets paths) = (r, .ok ()) := by
    rw [hpaths, processAll, hprocess]
    rfl
  obtain ⟨r', hrun, hr'⟩ := ofPaths_of_processAll
    (by rw [hpaths]; exact List.cons_ne_nil _ _) (by rw [hpaths, hvalid]) hall
  exact ⟨r', by rw [hrun, hsummary], hr'.trans hr⟩

end Run

end StyleAssets
