import StyleAssets.Asset.Output
import StyleAssets.FileTree.Change
import StyleAssets.Log

/-!
# Copying assets

* `CopyJob` — one file to copy into the dump directory.
* `CopyJob.firstOfEach` — of the jobs with one target only the first is run.
* `CopyJob.runAll` — runs jobs and counts successes and failures.
-/

namespace StyleAssets

/-- One file to copy. -/
structure CopyJob where
  source : Path
  target : Path
  deriving DecidableEq, Repr

structure CopyFailure where
  job : CopyJob
  cause : FileError
  deriving DecidableEq, Repr

def CopyFailure.message (f : CopyFailure) : String :=
  s!"failed to copy `{f.job.source.display}` to `{f.job.target.display}`"

/-- What became of some copies. The failures are in the order of the jobs. -/
structure CopyResults where
  copied : Nat := 0
  failures : List CopyFailure := []
  deriving DecidableEq, Repr

/-- The results with those of one more copy, which was made before the others. -/
def CopyResults.note (r : CopyResults) : Except CopyFailure Nat → CopyResults
  | .ok _ => { r with copied := r.copied + 1 }
  | .error failure => { r with failures := failure :: r.failures }

namespace CopyJob

def ofAsset (asset : OutputAsset) (dumpDir : Path) : CopyJob :=
  ⟨asset.source, dumpDir.join (.ofText asset.name)⟩

/-- Copies the file, overwriting any file at the target; the answer counts the bytes. A copy that
fails can leave an empty target. -/
def attempt (d : Disk) (job : CopyJob) : Disk × Except CopyFailure Nat :=
  match d.copy job.source job.target with
  | (d, .ok count) => (d, .ok count)
  | (d, .error cause) => (d, .error ⟨job, cause⟩)

/-- What a copy that does not fail leaves behind. -/
def run (d : Disk) (job : CopyJob) : Except CopyFailure (Disk × Nat) :=
  match job.attempt d with
  | (d, .ok count) => .ok (d, count)
  | (_, .error failure) => .error failure

/-- The first job for each target, in order; `kept` are those already chosen. -/
def firstOfEachAfter (kept : List CopyJob) : List CopyJob → List CopyJob
  | [] => []
  | job :: rest =>
    if kept.any fun k => decide (k.target.Same job.target) then firstOfEachAfter kept rest
    else job :: firstOfEachAfter (kept ++ [job]) rest

/-- The first job for each target, in order. -/
def firstOfEach (jobs : List CopyJob) : List CopyJob := firstOfEachAfter [] jobs

/-- Does another asset keep `job` from its target? -/
def clashes (kept : List CopyJob) (job : CopyJob) : Bool :=
  kept.any fun k => decide (k.target.Same job.target) && !decide (k.source.Same job.source)

/-- Warnings for the jobs that give way to a different asset, in order. -/
def clashWarningsAfter (kept : List CopyJob) : List CopyJob → Log
  | [] => []
  | job :: rest =>
    if kept.any fun k => decide (k.target.Same job.target) then
      (if clashes kept job then
        let source := job.source.display
        let target := job.target.display
        [.warning s!"`{source}` and another asset both map to `{target}`, keeping the first"]
      else []) ++ clashWarningsAfter kept rest
    else clashWarningsAfter (kept ++ [job]) rest

def runEach (d : Disk) : List CopyJob → Disk × CopyResults
  | [] => (d, {})
  | job :: rest =>
    let (d, outcome) := job.attempt d
    let (d, results) := runEach d rest
    (d, results.note outcome)

def runAll (d : Disk) (jobs : List CopyJob) : Disk × CopyResults × Log :=
  let (d, results) := runEach d (firstOfEach jobs)
  (d, results, clashWarningsAfter [] jobs)

end CopyJob

end StyleAssets
