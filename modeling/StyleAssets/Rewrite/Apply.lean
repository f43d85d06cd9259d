import StyleAssets.Rewrite.Report

/-!
# Rewriting a sheet

A sheet is rewritten in three steps: every declaration gets its outcome, all copies are run, and
only then are the new values written, or none of them.

* `Settings.plan` — the outcomes of a sheet.
* `commit` — the new values, put in place by a second walk.
* `RewriteOptions.apply` — the three steps.
-/

namespace StyleAssets

structure Applied (σ : Type) where
  sheet : σ
  disk : Disk
  report : Report
  log : Log

def CopyFailure.log (policy : MissingAssetPolicy) (sheet : Path) (failures : List CopyFailure) :
    Log :=
  match policy with
  | .error =>
    failures.map (fun f => .error s!"{f.message}: {f.cause.message}") ++
      [.error s!"leaving `{sheet.display}` unmodified"]
  | .warn =>
    failures.map fun f =>
      .warning s!"{f.message}: {f.cause.message} (referenced from `{sheet.display}`)"

variable {σ : Type} [StyleTree σ]

/-- Writes down what becomes of one declaration, last first, and keeps its value. -/
def Settings.note (s : Settings) (cwd : Option Path) (source : Path) (d : Declaration) :
    StateM (List Outcome) Text := do
  modify (s.outcome cwd source d.value :: ·)
  return d.value

/-- The first walk: the sheet after it, and the outcome of every declaration in order. -/
def Settings.plan (s : Settings) (cwd : Option Path) (sheet : σ) : σ × List Outcome :=
  let (sheet, outcomes) := (StyleTree.walk (s.note cwd (StyleTree.sourceFile sheet)) sheet).run []
  (sheet, outcomes.reverse)

/-- How far the second walk has come: `index` declarations have been met, and `rewritten` of them
have been given a new value. -/
structure Commit where
  index : Nat := 0
  rewritten : Nat := 0
  deriving DecidableEq, Repr

/-- The value of the next declaration: the one planned for its place in the walk, if any. -/
def Commit.next (planned : List (Option Text)) (d : Declaration) (c : Commit) : Text × Commit :=
  match planned[c.index]?.join with
  | some value => (value, ⟨c.index + 1, c.rewritten + 1⟩)
  | none => (d.value, ⟨c.index + 1, c.rewritten⟩)

/-- The second walk: the sheet with the planned values, and how many of them there were. -/
def commit (planned : List (Option Text)) (sheet : σ) : σ × Nat :=
  let (sheet, c) := (StyleTree.walk (fun d => modifyGet (Commit.next planned d)) sheet).run {}
  (sheet, c.rewritten)

def Settings.apply (s : Settings) (policy : MissingAssetPolicy) (d : Disk) (sheet : σ) :
    Applied σ :=
  let source := StyleTree.sourceFile sheet
  let (sheet, outcomes) := s.plan d.cwdPath? sheet
  let planning := outcomes.flatMap Outcome.log
  let planned : Report :=
    { sourceFile := source, skipped := outcomes.foldl SkipCounts.add {} }
  match outcomes.filterMap Outcome.job? with
  | [] => ⟨sheet, d, planned, planning⟩
  | jobs =>
    let (copied, results, clashes) := CopyJob.runAll d jobs
    let tried := { planned with copied := results.copied, failures := results.failures }
    let log := planning ++ clashes ++
      if results.failures.isEmpty then [] else CopyFailure.log policy source results.failures
    if !results.failures.isEmpty && policy == .error then
      ⟨sheet, copied, { tried with status := .rejected }, log⟩
    else
      let (sheet, rewritten) := commit (outcomes.map Outcome.newValue?) sheet
      let report := { tried with rewritten }
      let skipped := toString report.skipped.total
      ⟨sheet, copied, report, log ++
        [.debug "rewrite" s!"{source.display}: {report.rewritten} rewritten, {skipped} skipped"]⟩

/-- Rewrites a sheet; without the required settings it only says so. -/
def RewriteOptions.apply (o : RewriteOptions) (d : Disk) (sheet : σ) : Applied σ :=
  let source := StyleTree.sourceFile sheet
  match o.settings source with
  | .error e => ⟨sheet, d, { sourceFile := source, status := .skipped e }, [.warning e.message]⟩
  | .ok settings => settings.apply o.missing d sheet

end StyleAssets
