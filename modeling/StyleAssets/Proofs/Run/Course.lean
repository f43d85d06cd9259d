import Mathlib.Algebra.BigOperators.Group.List.Basic
import StyleAssets.Proofs.Rewrite.Replacement
import StyleAssets.Proofs.Run.Places

/-!
# The course of a run

A run goes through its sheets in order and comes to all of them, unless one cannot be read or its
text cannot be stored. A sheet that is rejected does not stop it: its text goes where it would have
gone, and the run fails in the end.

* `Config.Course` — the stages of a run and the disks between them.
* `Run.processAll_cases` — a run over given sheets takes such a course, or stops.
* `Run.totals` — what its stages add up to; `summary_foldl_advance` says that a run counts this.
* `Run.ofPaths_of_not_stops` — the same of a whole run that has passed its check.
-/

namespace StyleAssets

/-- Sheets are read, rewritten and stored one after the other, from one disk to another. -/
inductive Config.Course [Minifier] (c : Config) : Disk → List Stage → Disk → Prop
  | done (d : Disk) : c.Course d [] d
  | next {s : Stage} {stages : List Stage} {e d : Disk}
      (read : Stylesheet.read s.disk s.path = .ok s.sheet)
      (store : c.store (s.applied c).disk s.path (s.text c) = some e)
      (rest : c.Course e stages d) : c.Course s.disk (s :: stages) d

/-! ## One stage -/

namespace Stage

variable {c : Config} {s : Stage}

/-- What is read is the text of a file, with the declarations found in it. -/
theorem exists_text (hread : Stylesheet.read s.disk s.path = .ok s.sheet) :
    ∃ text, s.disk.readText s.path = .ok text ∧
      s.sheet = .parse (s.disk.normalize s.path) text := by
  unfold Stylesheet.read at hread
  cases htext : s.disk.readText s.path with
  | error cause =>
    rw [htext] at hread
    cases hread
  | ok text =>
    rw [htext] at hread
    exact ⟨text, rfl, (Except.ok.inj hread).symm⟩

theorem sourceFile_report (c : Config) (s : Stage) :
    (s.report c).sourceFile = s.sheet.sourceFile := by
  unfold report applied RewriteOptions.apply
  simp only
  split
  · rfl
  · unfold Settings.apply
    simp only
    split
    · rfl
    · split
      · rfl
      · rfl

/-- A sheet is skipped for a missing setting, so all of them are or none is. -/
theorem isSkipped_report (c : Config) (s : Stage) :
    (s.report c).isSkipped = true ↔ c.urlPrefix = none ∨ c.dumpDir = none := by
  by_cases hmissing : c.dumpDir = none ∨ c.urlPrefix = none
  · have hreport := (RewriteOptions.apply_of_missing s.disk s.sheet
      (o := c.rewriteOptions) hmissing).2.2
    rw [report, applied, hreport]
    exact iff_of_true rfl hmissing.symm
  · refine iff_of_false ?_ fun h => hmissing h.symm
    rw [not_or] at hmissing
    obtain ⟨-, hstatus, -⟩ | ⟨-, hstatus, -⟩ :=
      c.rewriteOptions.apply_spec s.disk s.sheet hmissing.1 hmissing.2
    · rw [report, applied, Report.isSkipped, hstatus]
      exact Bool.false_ne_true
    · rw [report, applied, Report.isSkipped, hstatus]
      exact Bool.false_ne_true

theorem status_of_warn (hwarn : c.missing = .warn) (s : Stage) :
    (s.report c).status ≠ .rejected := by
  intro hrejected
  by_cases hmissing : c.dumpDir = none ∨ c.urlPrefix = none
  · have hskipped := (isSkipped_report c s).2 hmissing.symm
    rw [Report.isSkipped, hrejected] at hskipped
    cases hskipped
  · rw [not_or] at hmissing
    have hcomplete : (s.report c).status = .complete :=
      RewriteOptions.complete_of_warn (o := c.rewriteOptions) hwarn hmissing.1 hmissing.2
    cases hrejected.symm.trans hcomplete

/-- **A sheet that is skipped or rejected keeps its text.** -/
theorem text_of_not_complete [Minifier] {text : Text}
    (hread : Stylesheet.read s.disk s.path = .ok s.sheet)
    (htext : s.disk.readText s.path = .ok text) (hstatus : (s.report c).status ≠ .complete) :
    s.text c = (minifyIf c.minify text).1 := by
  obtain ⟨other, hother, hsheet⟩ := exists_text hread
  obtain rfl : text = other := Except.ok.inj (htext.symm.trans hother)
  have hkept := RewriteOptions.declarations_of_not_complete hstatus
  have hwalked := Stylesheet.walked_apply c.rewriteOptions s.disk s.sheet
  rw [hsheet] at hkept hwalked
  rw [Stage.text, Run.textOf, applied, hsheet, hwalked.render_of_same hkept]

end Stage

namespace Run

variable {c : Config}

/-! ## Going through the sheets -/

/-- The disk does not matter to what a run prints, notes, counts and says. -/
theorem foldl_advance_disk [Minifier] (c : Config) (r : Run) (stages : List Stage) (d e : Disk) :
    { stages.foldl (advance c) { r with disk := d } with disk := e } =
      { stages.foldl (advance c) r with disk := e } := by
  induction stages generalizing r d with
  | nil => rfl
  | cons s stages ih =>
    have hadvance : advance c { r with disk := d } s =
        { advance c r s with disk := (advance c { r with disk := d } s).disk } :=
      congrArg (fun r' : Run => { r' with summary := r.summary.add (s.report c) })
        (handOn_disk c (r.say (s.log c)) d _ s.path (s.text c))
    rw [List.foldl_cons, List.foldl_cons, hadvance]
    exact ih _ _

/-- **A run comes to all of its sheets, or stops at one** that cannot be read or stored. -/
theorem processAll_cases [Minifier] (c : Config) (r : Run) (sheets : List Path) :
    (∃ stages d, c.Course r.disk stages d ∧ stages.map Stage.path = sheets ∧
      processAll c r sheets = ({ stages.foldl (advance c) r with disk := d }, .ok ())) ∨
    ∃ r' e, processAll c r sheets = (r', .error e) ∧ e.stops = true := by
  induction sheets generalizing r with
  | nil => exact .inl ⟨[], r.disk, .done _, rfl, rfl⟩
  | cons p rest ih =>
    obtain ⟨s, e, rfl, hdisk, hread, hstore, hprocess⟩ | ⟨r', e, hprocess, hstops⟩ :=
      process_cases c r p
    · rw [processAll, hprocess]
      obtain ⟨stages, d, hcourse, hpaths, hall⟩ | hstopped := ih { r.advance c s with disk := e }
      · refine .inl ⟨s :: stages, d, hdisk ▸ .next hread hstore hcourse, by rw [← hpaths]; rfl, ?_⟩
        rw [List.foldl_cons, ← foldl_advance_disk c (r.advance c s) stages e d]
        exact hall
      · exact .inr hstopped
    · exact .inr ⟨r', e, by rw [processAll, hprocess], hstops⟩

/-! ## Totals -/

/-- What the stages of a run add up to. -/
def totals (c : Config) (stages : List Stage) : RunSummary where
  stylesheets := stages.length
  rewritten := (stages.map fun s => (s.report c).rewritten).sum
  copied := (stages.map fun s => (s.report c).copied).sum
  copyFailures := (stages.map fun s => (s.report c).failures.length).sum
  skipped := if c.urlPrefix = none ∨ c.dumpDir = none then stages.length else 0
  rejected := (stages.filter fun s => (s.report c).isFailed).map fun s => s.sheet.sourceFile

theorem summary_foldl_advance [Minifier] (c : Config) (r : Run) (stages : List Stage) :
    (stages.foldl (advance c) r).summary =
      stages.foldl (fun t s => t.add (s.report c)) r.summary := by
  induction stages generalizing r with
  | nil => rfl
  | cons s stages ih => exact ih (r.advance c s)

theorem foldl_add_eq (c : Config) (t : RunSummary) (stages : List Stage) :
    stages.foldl (fun t s => t.add (s.report c)) t =
      { stylesheets := t.stylesheets + (totals c stages).stylesheets
        rewritten := t.rewritten + (totals c stages).rewritten
        copied := t.copied + (totals c stages).copied
        copyFailures := t.copyFailures + (totals c stages).copyFailures
        skipped := t.skipped + (totals c stages).skipped
        rejected := t.rejected ++ (totals c stages).rejected } := by
  induction stages generalizing t with
  | nil => simp [totals]
  | cons s stages ih =>
    rw [List.foldl_cons, ih]
    have hskipped : t.skipped + (if (s.report c).isSkipped then 1 else 0) +
        (totals c stages).skipped = t.skipped + (totals c (s :: stages)).skipped := by
      simp only [Stage.isSkipped_report, totals, List.length_cons]
      split <;> omega
    have hrejected : t.rejected ++ (if (s.report c).isFailed then [(s.report c).sourceFile] else
        []) ++ (totals c stages).rejected = t.rejected ++ (totals c (s :: stages)).rejected := by
      simp only [Stage.sourceFile_report, totals, List.filter_cons]
      split <;> simp
    simp only [RunSummary.add, hskipped, hrejected]
    simp only [totals, List.length_cons, List.map_cons, List.sum_cons, Nat.add_assoc,
      Nat.add_comm 1]

theorem summary_course [Minifier] (c : Config) (r : Run) (stages : List Stage)
    (h : r.summary = {}) :
    (stages.foldl (advance c) r).summary = totals c stages := by
  rw [summary_foldl_advance, h, foldl_add_eq]
  simp

/-! ## The verdict -/

variable {d : Disk} {paths : List Path} {r : Run} {verdict : Except RunError RunSummary}

/-- **A run that has passed its check and does not stop comes to all of its sheets.** -/
theorem ofPaths_of_not_stops [Minifier] (h : ofPaths c d paths = (r, verdict))
    (hsheets : d.stylesheets paths ≠ [])
    (hvalid : (c.validate d (d.stylesheets paths)).finish.1 = .ok ())
    (hfiles : ∀ e, verdict = .error e → e.stops = false) :
    ∃ stages e, c.Course d stages e ∧ stages.map Stage.path = d.stylesheets paths ∧
      r = Run.say { stages.foldl (advance c)
          { disk := d, log := (c.validate d (d.stylesheets paths)).log } with disk := e }
        ((totals c stages).log ++ (totals c stages).rejectedLog) ∧
      verdict = (totals c stages).verdict := by
  have hsome : (d.stylesheets paths).isEmpty = false := by simpa using hsheets
  have hfinish : (c.validate d (d.stylesheets paths)).finish =
      (.ok (), (c.validate d (d.stylesheets paths)).log) := Prod.ext hvalid rfl
  generalize hlog : (c.validate d (d.stylesheets paths)).log = log at hfinish
  have hsaid : ({ disk := d } : Run).say log = { disk := d, log } := by simp [say]
  rw [ofPaths] at h
  simp only [hsome, hfinish, hsaid, Bool.false_eq_true, if_false, start] at h
  obtain ⟨stages, e, hcourse, hpaths, hall⟩ | ⟨stopped, cause, hall, hstops⟩ :=
    processAll_cases c { disk := d, log } (d.stylesheets paths)
  · rw [hall] at h
    cases h
    have hsummary := summary_course c { disk := d, log } stages rfl
    exact ⟨stages, e, hcourse, hpaths, by rw [← hsummary], by rw [← hsummary]⟩
  · rw [hall] at h
    cases h
    cases hstops.symm.trans (hfiles cause rfl)

end Run

end StyleAssets
