import StyleAssets.Asset.Copy

/-!
# Running copies

* `CopyJob.runEach_append` — running jobs in two parts.
* `CopyJob.failures_runEach` — the failures say which jobs failed, each on the disk that the jobs
  before it left.
-/

namespace StyleAssets.CopyJob

theorem run_eq_error {d : Disk} {job : CopyJob} {failure : CopyFailure} :
    job.run d = .error failure ↔ (job.attempt d).2 = .error failure := by
  rw [run]
  rcases job.attempt d with ⟨e, count | other⟩ <;> simp

/-- A copy fails if its source cannot be found. -/
theorem run_of_find_error {d : Disk} {job : CopyJob} {e : FileError}
    (h : d.find job.source = .error e) : job.run d = .error ⟨job, e⟩ := by
  rw [run_eq_error, attempt, Disk.copy, Disk.copied, h]

theorem runEach_cons (d : Disk) (job : CopyJob) (rest : List CopyJob) :
    runEach d (job :: rest) = ((runEach (job.attempt d).1 rest).1,
      (runEach (job.attempt d).1 rest).2.note (job.attempt d).2) := rfl

theorem runEach_append (d : Disk) (done rest : List CopyJob) :
    runEach d (done ++ rest) =
      ((runEach (runEach d done).1 rest).1,
        ⟨(runEach d done).2.copied + (runEach (runEach d done).1 rest).2.copied,
          (runEach d done).2.failures ++ (runEach (runEach d done).1 rest).2.failures⟩) := by
  induction done generalizing d with
  | nil => simp [runEach]
  | cons job done ih =>
    rw [List.cons_append, runEach_cons, runEach_cons, ih]
    cases (job.attempt d).2 with
    | ok count => simp only [CopyResults.note, Nat.add_right_comm]
    | error failure => simp only [CopyResults.note, List.cons_append]

/-- Does one of some jobs, run one after the other, fail? -/
def SomeFails (d : Disk) (jobs : List CopyJob) : Prop :=
  ∃ done job rest, jobs = done ++ job :: rest ∧
    ∃ failure, job.run (runEach d done).1 = .error failure

theorem failures_runEach {d : Disk} {jobs : List CopyJob} :
    (runEach d jobs).2.failures ≠ [] ↔ SomeFails d jobs := by
  constructor
  · intro h
    induction jobs generalizing d with
    | nil => exact absurd rfl h
    | cons job jobs ih =>
      rw [runEach_cons] at h
      cases houtcome : (job.attempt d).2 with
      | error failure => exact ⟨[], job, jobs, rfl, failure, run_eq_error.2 houtcome⟩
      | ok count =>
        rw [houtcome] at h
        obtain ⟨done, job', rest, rfl, hfail⟩ := ih h
        exact ⟨job :: done, job', rest, rfl, hfail⟩
  · rintro ⟨done, job, rest, rfl, failure, hfail⟩ h
    rw [runEach_append, runEach_cons, run_eq_error.1 hfail] at h
    exact List.cons_ne_nil _ _ (List.append_eq_nil_iff.1 h).2

end StyleAssets.CopyJob
