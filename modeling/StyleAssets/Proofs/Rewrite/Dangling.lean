import StyleAssets.Proofs.Path.Canonical
import StyleAssets.Proofs.Asset.FirstOfEach
import StyleAssets.Proofs.Run.Stage

/-!
# References to copies that are not there

Under the milder policy a sheet gets its new urls even if a copy fails. Then the report says so: a
new url points at a file or the failure of its copy is told, once for each target and in the order
of the sheet.

* `CopyJob.failed_or_isFile` — a copy that is run fails or leaves a file at its target.
* `RewriteOptions.firstPlan` — the first declaration that plans a copy to a target;
  `firstOfEach_sorted` says that the copies which are run come in this order.
* `RewriteOptions.apply_reports_dangling` — **main result**.
-/

namespace StyleAssets

namespace CopyJob

variable {d e : Disk} {job : CopyJob} {jobs : List CopyJob}

theorem eq_of_attempt_error {failure : CopyFailure} (h : (job.attempt d).2 = .error failure) :
    failure.job = job := by
  unfold attempt at h
  split at h
  · cases h
  · cases h
    rfl

/-- A copy leaves a file at its target, whatever is written later. -/
theorem isFile_of_attempt {bytes : Nat} (h : (job.attempt d).2 = .ok bytes)
    (hlater : (job.attempt d).1.Grows e) : e.isFile job.target = true := by
  obtain ⟨place, file, heffect, -⟩ := exists_effect_of_ok h
  obtain ⟨_, _, -, -, hwritable, -⟩ := effect_eq_ok heffect
  have hreceives := receives_of_effect heffect
  rw [attempt_eq, heffect] at hlater
  obtain ⟨file', hget⟩ := hlater.file (Disk.get?_put_self hreceives.takes _)
  have haim : e.aim job.target = .ok place := by
    refine Disk.aim_of_grows ((Disk.grows_put_file hreceives).trans hlater)
      (Disk.writable_eq_ok.1 hwritable).1 fun entry hentry => ⟨file', ?_⟩
    rw [hget] at hentry
    exact (Option.some.inj hentry).symm
  obtain ⟨position, -, hfind⟩ := Disk.find_of_aim haim hget
  rw [Disk.isFile, hfind]

/-- **A copy that is run fails or leaves a file at its target.** -/
theorem failed_or_isFile (d : Disk) (h : job ∈ jobs) :
    (∃ failure ∈ (runEach d jobs).2.failures, failure.job = job) ∨
      (runEach d jobs).1.isFile job.target = true := by
  induction jobs generalizing d with
  | nil => exact absurd h List.not_mem_nil
  | cons first jobs ih =>
    rw [runEach_cons]
    cases houtcome : (first.attempt d).2 with
    | ok bytes =>
      obtain rfl | h := List.mem_cons.1 h
      · exact .inr (isFile_of_attempt houtcome (grows_runEach _ jobs))
      · exact ih _ h
    | error failure =>
      obtain rfl | h := List.mem_cons.1 h
      · exact .inl ⟨failure, List.mem_cons_self, eq_of_attempt_error houtcome⟩
      · obtain ⟨other, hother, hjob⟩ | hfile := ih (first.attempt d).1 h
        · exact .inl ⟨other, List.mem_cons_of_mem _ hother, hjob⟩
        · exact .inr hfile

/-- Failures come in the order of the copies. -/
theorem failures_sublist (d : Disk) (jobs : List CopyJob) :
    ((runEach d jobs).2.failures.map (·.job)).Sublist jobs := by
  induction jobs generalizing d with
  | nil => exact .slnil
  | cons job jobs ih =>
    rw [runEach_cons]
    cases houtcome : (job.attempt d).2 with
    | ok bytes => exact (ih _).cons job
    | error failure =>
      rw [CopyResults.note, List.map_cons, eq_of_attempt_error houtcome]
      exact (ih _).cons_cons job

/-- Is a copy to `target` asked for? -/
def leadsTo (target : Path) (asked : Option CopyJob) : Bool :=
  asked.any fun job => decide (job.target.Same target)

/-- The first copies for each target come in the order in which their targets are first asked
for. -/
theorem firstOfEachAfter_sorted (kept : List CopyJob) (asked : List (Option CopyJob)) :
    (firstOfEachAfter kept (asked.filterMap id)).Pairwise fun j k =>
      asked.findIdx (leadsTo j.target) < asked.findIdx (leadsTo k.target) := by
  induction asked generalizing kept with
  | nil => exact .nil
  | cons first asked ih =>
    -- copies that the first entry does not ask for stay in order behind it
    have hbehind : ∀ {rest : List CopyJob}, (∀ j ∈ rest, leadsTo j.target first = false) →
        (rest.Pairwise fun j k =>
          asked.findIdx (leadsTo j.target) < asked.findIdx (leadsTo k.target)) →
        rest.Pairwise fun j k => (first :: asked).findIdx (leadsTo j.target) <
          (first :: asked).findIdx (leadsTo k.target) := by
      intro rest hrest hpairwise
      refine hpairwise.imp_of_mem fun hj hk hlt => ?_
      rw [List.findIdx_cons, List.findIdx_cons, hrest _ hj, hrest _ hk]
      exact Nat.succ_lt_succ hlt
    cases first with
    | none => exact hbehind (fun _ _ => rfl) (ih kept)
    | some job =>
      have hcons : (some job :: asked).filterMap id = job :: asked.filterMap id := rfl
      rw [hcons, firstOfEachAfter_cons]
      split
      · rename_i hany
        refine hbehind (fun k hk => Bool.eq_false_iff.2 fun hrivals => ?_) (ih kept)
        rw [any_rivals_congr hrivals, (mem_firstOfEachAfter.1 hk).1] at hany
        cases hany
      · have hother : ∀ k ∈ firstOfEachAfter (kept ++ [job]) (asked.filterMap id),
            leadsTo k.target (some job) = false := by
          intro k hk
          have hnone := (mem_firstOfEachAfter.1 hk).1
          rw [List.any_append, Bool.or_eq_false_iff] at hnone
          have hjob : rivals job k = false := by simpa using hnone.2
          exact hjob
        refine .cons (fun k hk => ?_) (hbehind hother (ih _))
        have hself : leadsTo job.target (some job) = true := rivals_self job
        rw [List.findIdx_cons, List.findIdx_cons, hself, hother k hk]
        exact Nat.succ_pos _

end CopyJob

namespace RewriteOptions

variable {σ : Type} [StyleTree σ]

/-- The place of the first declaration that plans a copy to `target`. -/
def firstPlan (o : RewriteOptions) (d : Disk) (sheet : σ) (target : Path) : Nat :=
  (StyleTree.declarations sheet).findIdx fun x =>
    CopyJob.leadsTo target (o.outcome d.cwdPath? (StyleTree.sourceFile sheet) x).job?

variable {o : RewriteOptions} {d : Disk} {sheet : σ} {job : CopyJob}

theorem firstOfEach_sorted (o : RewriteOptions) (d : Disk) (sheet : σ) :
    (CopyJob.firstOfEach (o.jobs d sheet)).Pairwise fun j k =>
      o.firstPlan d sheet j.target < o.firstPlan d sheet k.target := by
  have hsorted := CopyJob.firstOfEachAfter_sorted []
    ((StyleTree.declarations sheet).map fun x =>
      (o.outcome d.cwdPath? (StyleTree.sourceFile sheet) x).job?)
  simp only [List.findIdx_map, List.filterMap_map] at hsorted
  exact hsorted

/-- A copy that is run is the one that the first declaration with its target plans. -/
theorem firstPlan_of_firstOfEach (h : job ∈ CopyJob.firstOfEach (o.jobs d sheet)) :
    ((StyleTree.declarations sheet)[o.firstPlan d sheet job.target]?.bind fun x =>
      (o.outcome d.cwdPath? (StyleTree.sourceFile sheet) x).job?) = some job := by
  have hfind := CopyJob.mem_firstOfEach.1 h
  rw [jobs, List.find?_filterMap, List.find?_eq_getElem?_findIdx] at hfind
  exact hfind

variable [LawfulStyleTree σ]

/-- **No reference dangles unreported.** Whatever the sheet, the files and the policy: if a
declaration is to be rewritten, a file stands where its new url points, or the failure of the copy
is told. Failures are told once for each target, each for the copy that the first declaration with
this target plans, in the order of these declarations. -/
theorem apply_reports_dangling (o : RewriteOptions) (d : Disk) (sheet : σ) :
    let a := o.apply d sheet
    let outcome := o.outcome d.cwdPath? (StyleTree.sourceFile sheet)
    (∀ x ∈ StyleTree.declarations sheet, ∀ raw value job, outcome x = .rewrite raw value job →
      a.disk.isFile job.target = true ∨
        ∃ failure ∈ a.report.failures, failure.job.target.Same job.target) ∧
    (a.report.failures.Pairwise fun f g => ¬f.job.target.Same g.job.target) ∧
    (∀ failure ∈ a.report.failures,
      ((StyleTree.declarations sheet)[o.firstPlan d sheet failure.job.target]?.bind fun x =>
        (outcome x).job?) = some failure.job) ∧
    a.report.failures.Pairwise fun f g =>
      o.firstPlan d sheet f.job.target < o.firstPlan d sheet g.job.target := by
  intro a outcome
  obtain ⟨hdisk, hfailures, -⟩ := o.apply_runAll d sheet
  have hsublist : (a.report.failures.map (·.job)).Sublist
      (CopyJob.firstOfEach (o.jobs d sheet)) := by
    rw [hfailures]
    exact CopyJob.failures_sublist d _
  refine ⟨fun x hx raw value job houtcome => ?_, ?_, fun failure hfailure => ?_, ?_⟩
  · have hjob : job ∈ o.jobs d sheet := List.mem_filterMap.2 ⟨x, hx, congrArg Outcome.job? houtcome⟩
    obtain ⟨first, hfirst, -, hsame⟩ := CopyJob.exists_first hjob
    obtain ⟨failure, hfailure, rfl⟩ | hfile := CopyJob.failed_or_isFile d hfirst
    · exact .inr ⟨failure, hfailures ▸ hfailure, hsame⟩
    · left
      obtain ⟨dir, raw₁, hdir, rfl⟩ := mem_jobs hjob
      obtain ⟨dir', raw₂, hdir', rfl⟩ := mem_jobs ((CopyJob.firstOfEach_sublist _).subset hfirst)
      obtain rfl : dir' = dir := Option.some.inj (hdir'.symm.trans hdir)
      rw [← CopyJob.target_eq_of_same hsame, hdisk]
      exact hfile
  · have hapart := (CopyJob.firstOfEach_pairwise _).sublist hsublist
    exact List.pairwise_map.1 hapart
  · exact firstPlan_of_firstOfEach (hsublist.subset (List.mem_map_of_mem hfailure))
  · have hsorted := (o.firstOfEach_sorted d sheet).sublist hsublist
    rw [List.pairwise_map] at hsorted
    exact hsorted

/-- Two assets called `x.png`, of which only the second is there. -/
def sharedName : Disk where
  tree.entries := [([[0x64]], .directory), ([[0x73]], .directory), ([[0x73], [0x7A]], .directory),
    ([[0x73], [0x7A], Utf8.encode "x.png".toList], .file { content := [1] })]
  cwd := ⟨[], 0⟩

/-- Only the first copy with a target is tried, and its failure stands for both. -/
theorem apply_reports_dangling_shared :
    let sheet : DeclarationList := ⟨.ofString "/s/a.css",
      [⟨['b'], "url(x.png)".toList⟩, ⟨['c'], "url(z/x.png)".toList⟩]⟩
    let o : RewriteOptions := ⟨some "/p".toList, some (.ofString "/d"), .warn⟩
    ∃ failure ∈ (o.apply sharedName sheet).report.failures,
      failure.job.target.Same (.ofString "/d/a_dumped_x.png") := by
  intro sheet o
  obtain ⟨hdangling, -⟩ := apply_reports_dangling o sharedName sheet
  have houtcome : o.outcome sharedName.cwdPath? sheet.sourceFile ⟨['c'], "url(z/x.png)".toList⟩ =
      .rewrite "z/x.png".toList "url(\"/p/a_dumped_x.png\")".toList
        ⟨.ofString "/s/z/x.png", .ofString "/d/a_dumped_x.png"⟩ := by decide +kernel
  have hjobs : o.jobs sharedName sheet =
      [⟨.ofString "/s/x.png", .ofString "/d/a_dumped_x.png"⟩,
        ⟨.ofString "/s/z/x.png", .ofString "/d/a_dumped_x.png"⟩] := by decide +kernel
  have hdisk : (o.apply sharedName sheet).disk = sharedName := by
    rw [(o.apply_runAll sharedName sheet).1, hjobs]
    cbv
  have hnone : sharedName.isFile (.ofString "/d/a_dumped_x.png") = false := by cbv
  obtain hfile | ⟨failure, hfailure, hsame⟩ :=
    hdangling ⟨['c'], "url(z/x.png)".toList⟩ (.tail _ (.head _)) _ _ _ houtcome
  · rw [hdisk, hnone] at hfile
    cases hfile
  · exact ⟨failure, hfailure, hsame⟩

end RewriteOptions

end StyleAssets
