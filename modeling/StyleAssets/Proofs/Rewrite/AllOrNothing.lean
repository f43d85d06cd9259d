import Mathlib.Data.List.Forall2
import StyleAssets.Proofs.Asset.Copy
import StyleAssets.Proofs.Sheet.Walk
import StyleAssets.Rewrite.Apply

/-!
# All or nothing

Rewriting gives a sheet all of its new values, or none of them.

* `Settings.plan_spec` — the first walk changes nothing and finds every outcome.
* `commit_spec` — the second walk puts each value where the first one found its declaration.
* `Settings.apply_spec` — the two ways in which rewriting ends.
-/

namespace StyleAssets

/-- The declaration with the value that an outcome puts in place. -/
def Outcome.put (outcome : Outcome) (d : Declaration) : Declaration :=
  { d with value := outcome.newValue?.getD d.value }

namespace RewriteOptions

/-- What becomes of a declaration; nothing if a setting is missing. -/
def outcome (o : RewriteOptions) (cwd : Option Path) (source : Path) (d : Declaration) : Outcome :=
  match o.process cwd source d with
  | .ok outcome => outcome
  | .error _ => .untouched

variable {σ : Type} [StyleTree σ]

/-- The copies that a sheet asks for. -/
def jobs (o : RewriteOptions) (d : Disk) (sheet : σ) : List CopyJob :=
  (StyleTree.declarations sheet).filterMap fun x =>
    (o.outcome d.cwdPath? (StyleTree.sourceFile sheet) x).job?

/-- The declarations of a sheet with all new values. -/
def rewritten (o : RewriteOptions) (d : Disk) (sheet : σ) : List Declaration :=
  (StyleTree.declarations sheet).map fun x =>
    (o.outcome d.cwdPath? (StyleTree.sourceFile sheet) x).put x

end RewriteOptions

/-! ## Outcomes -/

theorem Outcome.newValue?_eq_none_iff {outcome : Outcome} :
    outcome.newValue? = none ↔ outcome.job? = none := by
  cases outcome <;> simp [newValue?, job?]

theorem Outcome.put_of_none {outcome : Outcome} (h : outcome.newValue? = none) (d : Declaration) :
    outcome.put d = d := by
  rw [put, h]
  rfl

/-- The working directory matters to copies, not to values. -/
theorem Settings.newValue?_outcome (s : Settings) (cwd cwd' : Option Path) (source : Path)
    (value : Text) :
    (s.outcome cwd source value).newValue? = (s.outcome cwd' source value).newValue? := by
  unfold Settings.outcome
  cases UrlReference.extract value with
  | error why => rfl
  | ok found =>
    cases found with
    | none => rfl
    | some r =>
      cases hkind : r.kind with
      | localRelative => simp only [hkind]; rfl
      | _ => simp only [hkind]

theorem RewriteOptions.newValue?_outcome (o : RewriteOptions) (cwd cwd' : Option Path)
    (source : Path) (d : Declaration) :
    (o.outcome cwd source d).newValue? = (o.outcome cwd' source d).newValue? := by
  unfold RewriteOptions.outcome RewriteOptions.process
  cases o.settings source with
  | error e => rfl
  | ok s => exact s.newValue?_outcome cwd cwd' source d.value

theorem RewriteOptions.rewritten_eq {σ : Type} [StyleTree σ] (o : RewriteOptions) (d d' : Disk)
    (sheet : σ) : o.rewritten d sheet = o.rewritten d' sheet := by
  refine List.map_congr_left fun x _ => ?_
  rw [Outcome.put, Outcome.put, o.newValue?_outcome d.cwdPath? d'.cwdPath?]

/-- What is rewritten is a url that names a file next to the sheet. -/
theorem Settings.outcome_eq_rewrite {s : Settings} {cwd : Option Path} {source : Path}
    {value raw new : Text} {job : CopyJob} (h : s.outcome cwd source value = .rewrite raw new job) :
    ∃ r, UrlReference.extract value = .ok (some r) ∧ r.kind = .localRelative ∧ r.raw = raw ∧
      job = .ofAsset (.derive cwd source raw) s.dumpDir ∧
      new = r.before ++ s.newToken (OutputAsset.derive cwd source raw).name ++ r.after := by
  unfold Settings.outcome at h
  split at h
  · cases h
  · cases h
  · rename_i r hextract
    split at h
    · cases h
    · cases h
    · cases h
    · cases h
      exact ⟨r, hextract, ‹_›, rfl, rfl, rfl⟩

theorem RewriteOptions.outcome_eq_rewrite {o : RewriteOptions} {cwd : Option Path} {source : Path}
    {x : Declaration} {raw new : Text} {job : CopyJob}
    (h : o.outcome cwd source x = .rewrite raw new job) :
    o.process cwd source x = .ok (.rewrite raw new job) := by
  unfold RewriteOptions.outcome at h
  split at h
  · rename_i hprocess
    rw [hprocess, h]
  · cases h

theorem RewriteOptions.process_eq_ok {o : RewriteOptions} {cwd : Option Path} {source : Path}
    {x : Declaration} {outcome : Outcome} (h : o.process cwd source x = .ok outcome) :
    ∃ s, o.settings source = .ok s ∧ o.dumpDir = some s.dumpDir ∧
      s.outcome cwd source x.value = outcome := by
  unfold RewriteOptions.process RewriteOptions.settings at h
  unfold RewriteOptions.settings
  split at h
  · cases h
  · cases h
  · rename_i dir urlPrefix hdir _
    cases h
    exact ⟨⟨urlPrefix, dir⟩, rfl, hdir, rfl⟩

/-- Copies come from rewritten declarations. -/
theorem RewriteOptions.mem_jobs {σ : Type} [StyleTree σ] {o : RewriteOptions} {d : Disk} {sheet : σ}
    {job : CopyJob} (h : job ∈ o.jobs d sheet) :
    ∃ dir raw, o.dumpDir = some dir ∧
      job = .ofAsset (.derive d.cwdPath? (StyleTree.sourceFile sheet) raw) dir := by
  obtain ⟨x, -, hjob⟩ := List.mem_filterMap.1 h
  cases houtcome : o.outcome d.cwdPath? (StyleTree.sourceFile sheet) x with
  | untouched => simp [houtcome, Outcome.job?] at hjob
  | skip reason => simp [houtcome, Outcome.job?] at hjob
  | rewrite raw value planned =>
    rw [houtcome] at hjob
    cases hjob
    obtain ⟨s, -, hdir, hrewrite⟩ := process_eq_ok (outcome_eq_rewrite houtcome)
    obtain ⟨-, -, -, -, rfl, -⟩ := s.outcome_eq_rewrite hrewrite
    exact ⟨s.dumpDir, raw, hdir, rfl⟩

/-! ## The two walks -/

variable {σ : Type} [StyleTree σ]

section Lawful

variable [LawfulStyleTree σ]

theorem Settings.plan_spec (s : Settings) (cwd : Option Path) (sheet : σ) :
    StyleTree.declarations (s.plan cwd sheet).1 = StyleTree.declarations sheet ∧
      (s.plan cwd sheet).2 = (StyleTree.declarations sheet).map fun x =>
        s.outcome cwd (StyleTree.sourceFile sheet) x.value := by
  have hwalk := Declaration.walk_collect
    (fun x => s.outcome cwd (StyleTree.sourceFile sheet) x.value) (StyleTree.declarations sheet) []
  have hsheet :=
    LawfulStyleTree.declarations_walk (s.note cwd (StyleTree.sourceFile sheet)) sheet []
  have hstate := LawfulStyleTree.state_walk (s.note cwd (StyleTree.sourceFile sheet)) sheet []
  refine ⟨hsheet.trans (congrArg Prod.fst hwalk), ?_⟩
  refine (congrArg List.reverse (hstate.trans (congrArg Prod.snd hwalk))).trans ?_
  rw [List.append_nil, List.reverse_reverse]

theorem run_commit (planned : List (Option Text)) (d : Declaration) (c : Commit) :
    (modifyGet (Commit.next planned d) : StateM Commit Text).run c =
      match planned[c.index]?.join with
      | some value => (value, ⟨c.index + 1, c.rewritten + 1⟩)
      | none => (d.value, ⟨c.index + 1, c.rewritten⟩) := rfl

/-- In the middle of the second walk the values planned for `done` lie behind. -/
theorem Declaration.walk_commit (f : Declaration → Outcome) (all : List Declaration)
    (done : List (Option Text)) (count : Nat) :
    (Declaration.walk (fun d => modifyGet
        (Commit.next (done ++ all.map fun x => (f x).newValue?) d)) all).run ⟨done.length, count⟩ =
      (all.map fun x => (f x).put x,
        ⟨done.length + all.length, count + (all.filterMap fun x => (f x).newValue?).length⟩) := by
  induction all generalizing done count with
  | nil => rfl
  | cons d all ih =>
    have hplanned : (done ++ (d :: all).map fun x => (f x).newValue?)[done.length]?.join =
        (f d).newValue? := by
      simp
    have hnext : ∀ count', (Declaration.walk (fun d' => modifyGet (Commit.next
        (done ++ (d :: all).map fun x => (f x).newValue?) d')) all).run ⟨done.length + 1, count'⟩ =
          (all.map fun x => (f x).put x, ⟨done.length + (d :: all).length,
            count' + (all.filterMap fun x => (f x).newValue?).length⟩) := by
      intro count'
      have h := ih (done ++ [(f d).newValue?]) count'
      rw [List.append_assoc, List.length_append] at h
      rw [List.length_cons, Nat.add_comm all.length 1, ← Nat.add_assoc]
      exact h
    generalize (done ++ (d :: all).map fun x => (f x).newValue?) = planned at hplanned hnext ⊢
    rw [Declaration.run_walk_cons, run_commit, hplanned]
    cases hvalue : (f d).newValue? with
    | none =>
      simp only [hnext, List.map_cons, List.filterMap_cons, hvalue, Outcome.put_of_none]
    | some value =>
      simp only [hnext, List.map_cons, List.filterMap_cons, hvalue, Outcome.put, Option.getD_some,
        List.length_cons, Nat.add_assoc, Nat.add_comm 1]

theorem commit_spec (f : Declaration → Outcome) (sheet : σ) :
    StyleTree.declarations
        (commit ((StyleTree.declarations sheet).map fun x => (f x).newValue?) sheet).1 =
      ((StyleTree.declarations sheet).map fun x => (f x).put x) ∧
    (commit ((StyleTree.declarations sheet).map fun x => (f x).newValue?) sheet).2 =
      ((StyleTree.declarations sheet).filterMap fun x => (f x).newValue?).length := by
  have hwalk := Declaration.walk_commit f (StyleTree.declarations sheet) [] 0
  rw [List.length_nil, Nat.zero_add, Nat.zero_add] at hwalk
  refine ⟨(LawfulStyleTree.declarations_walk _ sheet _).trans (congrArg Prod.fst hwalk), ?_⟩
  refine (congrArg Commit.rewritten (LawfulStyleTree.state_walk _ sheet _)).trans ?_
  exact congrArg (fun result => result.2.rewritten) hwalk

end Lawful

/-! ## Rewriting -/

/-- Rewriting ends without copies, is rejected, or commits. -/
theorem Settings.apply_cases (s : Settings) (policy : MissingAssetPolicy) (d : Disk) (sheet : σ)
    {a : Applied σ} (h : s.apply policy d sheet = a) :
    let plan := s.plan d.cwdPath? sheet
    let jobs := plan.2.filterMap Outcome.job?
    let failures := (CopyJob.runAll d jobs).2.1.failures
    (jobs = [] ∧ a.sheet = plan.1 ∧ a.report.status = .complete) ∨
    ((policy = .error ∧ failures ≠ []) ∧ a.sheet = plan.1 ∧ a.report.status = .rejected) ∨
    (¬(policy = .error ∧ failures ≠ []) ∧
      a.sheet = (commit (plan.2.map Outcome.newValue?) plan.1).1 ∧
      a.report.status = .complete) := by
  unfold Settings.apply at h
  simp only at h ⊢
  split at h
  · rename_i hnone
    subst h
    exact .inl ⟨hnone, rfl, rfl⟩
  · refine .inr ?_
    split at h
    · rename_i hfailed
      subst h
      exact .inl ⟨by simpa [and_comm] using hfailed, rfl, rfl⟩
    · rename_i hfine
      subst h
      exact .inr ⟨by simpa [and_comm] using hfine, rfl, rfl⟩

theorem Settings.put_of_no_jobs {s : Settings} {cwd : Option Path} {source : Path}
    {all : List Declaration}
    (h : (all.map fun x => s.outcome cwd source x.value).filterMap Outcome.job? = []) :
    (all.map fun x => (s.outcome cwd source x.value).put x) = all := by
  refine (List.map_congr_left fun x hx => ?_).trans (List.map_id all)
  refine Outcome.put_of_none (Outcome.newValue?_eq_none_iff.2 ?_) x
  exact List.filterMap_eq_nil_iff.1 h _ (List.mem_map_of_mem hx)

section Lawful

variable [LawfulStyleTree σ]

/-- **The two ways in which rewriting ends.** -/
theorem Settings.apply_spec (s : Settings) (policy : MissingAssetPolicy) (d : Disk) (sheet : σ) :
    let outcome x := s.outcome d.cwdPath? (StyleTree.sourceFile sheet) (Declaration.value x)
    let jobs := (StyleTree.declarations sheet).filterMap fun x => (outcome x).job?
    let a := s.apply policy d sheet
    ((policy = .error ∧ CopyJob.SomeFails d (CopyJob.firstOfEach jobs)) ∧
      a.report.status = .rejected ∧
      StyleTree.declarations a.sheet = StyleTree.declarations sheet) ∨
    (¬(policy = .error ∧ CopyJob.SomeFails d (CopyJob.firstOfEach jobs)) ∧
      a.report.status = .complete ∧
      StyleTree.declarations a.sheet =
        (StyleTree.declarations sheet).map fun x => (outcome x).put x) := by
  intro outcome jobs a
  have hcases := s.apply_cases policy d sheet (a := a) rfl
  obtain ⟨hplanned, houtcomes⟩ := s.plan_spec d.cwdPath? sheet
  generalize s.plan d.cwdPath? sheet = plan at hcases hplanned houtcomes
  have hjobs : plan.2.filterMap Outcome.job? = jobs := by
    rw [houtcomes, List.filterMap_map]
    rfl
  simp only [hjobs] at hcases
  rw [← CopyJob.failures_runEach]
  obtain ⟨hnone, hsheet, hstatus⟩ | ⟨hfailed, hsheet, hstatus⟩ | ⟨hfine, hsheet, hstatus⟩ := hcases
  · rw [hnone, hsheet, hplanned]
    refine .inr ⟨fun h => h.2 rfl, hstatus, Eq.symm ?_⟩
    exact Settings.put_of_no_jobs (by rw [← houtcomes, hjobs, hnone])
  · exact .inl ⟨hfailed, hstatus, by rw [hsheet, hplanned]⟩
  · refine .inr ⟨hfine, hstatus, ?_⟩
    rw [hsheet, houtcomes, List.map_map, ← hplanned]
    exact (commit_spec outcome plan.1).1

end Lawful

namespace RewriteOptions

/-- Without a required setting nothing happens; a missing dump directory is named first. -/
theorem apply_of_missing {o : RewriteOptions} (d : Disk) (sheet : σ)
    (h : o.dumpDir = none ∨ o.urlPrefix = none) :
    (o.apply d sheet).sheet = sheet ∧ (o.apply d sheet).disk = d ∧
      (o.apply d sheet).report =
        { sourceFile := StyleTree.sourceFile sheet
          status := .skipped
            ⟨if o.dumpDir = none then .dumpDir else .urlPrefix, StyleTree.sourceFile sheet⟩ } := by
  unfold apply settings
  cases hdir : o.dumpDir with
  | none => exact ⟨rfl, rfl, rfl⟩
  | some dir =>
    have hpre : o.urlPrefix = none := h.resolve_left (hdir ▸ Option.some_ne_none dir)
    rw [hpre]
    exact ⟨rfl, rfl, rfl⟩

theorem rewritten_of_missing {o : RewriteOptions} (d : Disk) (sheet : σ)
    (h : o.dumpDir = none ∨ o.urlPrefix = none) :
    o.rewritten d sheet = StyleTree.declarations sheet := by
  refine (List.map_congr_left fun x _ => ?_).trans (List.map_id _)
  refine Outcome.put_of_none ?_ x
  unfold outcome process settings
  cases hdir : o.dumpDir with
  | none => rfl
  | some dir =>
    have hpre : o.urlPrefix = none := h.resolve_left (hdir ▸ Option.some_ne_none dir)
    rw [hpre]
    rfl

theorem process_of_settings {o : RewriteOptions} {dir : Path} {pre : Text}
    (hdir : o.dumpDir = some dir) (hpre : o.urlPrefix = some pre) (cwd : Option Path)
    (source : Path) (x : Declaration) :
    o.process cwd source x = .ok ((⟨pre, dir⟩ : Settings).outcome cwd source x.value) := by
  rw [process, settings, hdir, hpre]
  rfl

theorem outcome_of_settings {o : RewriteOptions} {dir : Path} {pre : Text}
    (hdir : o.dumpDir = some dir) (hpre : o.urlPrefix = some pre) (cwd : Option Path)
    (source : Path) :
    o.outcome cwd source = fun x => Settings.outcome ⟨pre, dir⟩ cwd source x.value := by
  funext x
  rw [outcome, process_of_settings hdir hpre]

section Lawful

variable [LawfulStyleTree σ] (o : RewriteOptions) (d : Disk) (sheet : σ)

/-- With the required settings a sheet is rewritten as a whole or not at all. -/
theorem apply_spec (hdir : o.dumpDir ≠ none) (hpre : o.urlPrefix ≠ none) :
    ((o.missing = .error ∧ CopyJob.SomeFails d (CopyJob.firstOfEach (o.jobs d sheet))) ∧
      (o.apply d sheet).report.status = .rejected ∧
      StyleTree.declarations (o.apply d sheet).sheet = StyleTree.declarations sheet) ∨
    (¬(o.missing = .error ∧ CopyJob.SomeFails d (CopyJob.firstOfEach (o.jobs d sheet))) ∧
      (o.apply d sheet).report.status = .complete ∧
      StyleTree.declarations (o.apply d sheet).sheet = o.rewritten d sheet) := by
  obtain ⟨dir, hdir⟩ := Option.ne_none_iff_exists'.1 hdir
  obtain ⟨pre, hpre⟩ := Option.ne_none_iff_exists'.1 hpre
  have hsettings : o.settings (StyleTree.sourceFile sheet) = .ok ⟨pre, dir⟩ := by
    rw [settings, hdir, hpre]
  rw [jobs, rewritten, outcome_of_settings hdir hpre, apply, hsettings]
  exact Settings.apply_spec ⟨pre, dir⟩ o.missing d sheet

/-- The declarations end as they were, or all of them with their new values. -/
theorem declarations_apply :
    StyleTree.declarations (o.apply d sheet).sheet = StyleTree.declarations sheet ∨
      StyleTree.declarations (o.apply d sheet).sheet = o.rewritten d sheet := by
  by_cases hmissing : o.dumpDir = none ∨ o.urlPrefix = none
  · rw [(apply_of_missing d sheet hmissing).1]
    exact .inl rfl
  · obtain ⟨hdir, hpre⟩ := not_or.1 hmissing
    obtain ⟨-, -, hsame⟩ | ⟨-, -, hrewritten⟩ := o.apply_spec d sheet hdir hpre
    · exact .inl hsame
    · exact .inr hrewritten

variable {o d sheet} in
theorem declarations_of_complete (hdir : o.dumpDir ≠ none) (hpre : o.urlPrefix ≠ none)
    (h : (o.apply d sheet).report.status = .complete) :
    StyleTree.declarations (o.apply d sheet).sheet = o.rewritten d sheet := by
  obtain ⟨-, hrejected, -⟩ | ⟨-, -, hrewritten⟩ := o.apply_spec d sheet hdir hpre
  · rw [h] at hrejected
    cases hrejected
  · exact hrewritten

variable {o d sheet} in
theorem declarations_of_not_complete (h : (o.apply d sheet).report.status ≠ .complete) :
    StyleTree.declarations (o.apply d sheet).sheet = StyleTree.declarations sheet := by
  by_cases hmissing : o.dumpDir = none ∨ o.urlPrefix = none
  · rw [(apply_of_missing d sheet hmissing).1]
  · obtain ⟨hdir, hpre⟩ := not_or.1 hmissing
    obtain ⟨-, -, hsame⟩ | ⟨-, hcomplete, -⟩ := o.apply_spec d sheet hdir hpre
    · exact hsame
    · exact absurd hcomplete h

variable {o d sheet} in
/-- Under the milder policy no sheet is rejected. -/
theorem complete_of_warn (h : o.missing = .warn) (hdir : o.dumpDir ≠ none)
    (hpre : o.urlPrefix ≠ none) : (o.apply d sheet).report.status = .complete := by
  obtain ⟨⟨herror, -⟩, -, -⟩ | ⟨-, hcomplete, -⟩ := o.apply_spec d sheet hdir hpre
  · rw [h] at herror
    cases herror
  · exact hcomplete

theorem declarations_apply_warn (h : o.missing = .warn) :
    StyleTree.declarations (o.apply d sheet).sheet = o.rewritten d sheet := by
  by_cases hmissing : o.dumpDir = none ∨ o.urlPrefix = none
  · rw [(apply_of_missing d sheet hmissing).1, rewritten_of_missing d sheet hmissing]
  · obtain ⟨hdir, hpre⟩ := not_or.1 hmissing
    exact declarations_of_complete hdir hpre (complete_of_warn h hdir hpre)

/-- Whatever happens, declarations keep their places and properties, and those that are not to be
rewritten their values. -/
theorem apply_frame :
    List.Forall₂ (fun x y => y.property = x.property ∧
        ((o.outcome d.cwdPath? (StyleTree.sourceFile sheet) x).newValue? = none →
          y.value = x.value))
      (StyleTree.declarations sheet) (StyleTree.declarations (o.apply d sheet).sheet) := by
  obtain hsame | hrewritten := o.declarations_apply d sheet
  · rw [hsame, List.forall₂_same]
    exact fun x _ => ⟨rfl, fun _ => rfl⟩
  · rw [hrewritten, rewritten, List.forall₂_map_right_iff, List.forall₂_same]
    exact fun x _ => ⟨rfl, fun hnone => congrArg Declaration.value (Outcome.put_of_none hnone x)⟩

/-- **All or nothing.** Without a required setting nothing happens. Otherwise every declaration that
is to be rewritten ends with its new value, or none changes, and the latter exactly when the policy
says so and a copy failed. The file tree never decides about values, only whether they are put in
place, and under the milder policy not even that. -/
theorem apply_all_or_nothing :
    (o.dumpDir = none ∨ o.urlPrefix = none →
      (o.apply d sheet).sheet = sheet ∧ (o.apply d sheet).disk = d ∧
        (o.apply d sheet).report =
          { sourceFile := StyleTree.sourceFile sheet
            status := .skipped
              ⟨if o.dumpDir = none then .dumpDir else .urlPrefix, StyleTree.sourceFile sheet⟩ }) ∧
    (o.dumpDir ≠ none → o.urlPrefix ≠ none →
      ((o.apply d sheet).report.status = .complete ∧
          StyleTree.declarations (o.apply d sheet).sheet = o.rewritten d sheet ∨
        (o.apply d sheet).report.status = .rejected ∧
          StyleTree.declarations (o.apply d sheet).sheet = StyleTree.declarations sheet) ∧
      ((o.apply d sheet).report.status = .rejected ↔
        o.missing = .error ∧ CopyJob.SomeFails d (CopyJob.firstOfEach (o.jobs d sheet)))) ∧
    List.Forall₂ (fun x y => y.property = x.property ∧
        ((o.outcome d.cwdPath? (StyleTree.sourceFile sheet) x).newValue? = none →
          y.value = x.value))
      (StyleTree.declarations sheet) (StyleTree.declarations (o.apply d sheet).sheet) ∧
    (o.missing = .warn → ∀ d' : Disk, StyleTree.declarations (o.apply d' sheet).sheet =
      StyleTree.declarations (o.apply d sheet).sheet) ∧
    (∀ d' : Disk, StyleTree.declarations (o.apply d sheet).sheet =
          StyleTree.declarations ({ o with missing := .warn }.apply d' sheet).sheet ∨
        StyleTree.declarations (o.apply d sheet).sheet = StyleTree.declarations sheet) := by
  refine ⟨apply_of_missing d sheet, fun hdir hpre => ?_, o.apply_frame d sheet,
    fun hwarn d' => ?_, fun d' => ?_⟩
  · obtain ⟨hfailed, hstatus, hsame⟩ | ⟨hfine, hstatus, hrewritten⟩ :=
      o.apply_spec d sheet hdir hpre
    · exact ⟨.inr ⟨hstatus, hsame⟩, fun _ => hfailed, fun _ => hstatus⟩
    · refine ⟨.inl ⟨hstatus, hrewritten⟩, fun hrejected => ?_, fun hfailed => absurd hfailed hfine⟩
      rw [hstatus] at hrejected
      cases hrejected
  · rw [o.declarations_apply_warn d' sheet hwarn, o.declarations_apply_warn d sheet hwarn]
    exact o.rewritten_eq d' d sheet
  · obtain hsame | hrewritten := o.declarations_apply d sheet
    · exact .inr hsame
    · left
      rw [hrewritten, declarations_apply_warn _ d' sheet rfl]
      exact o.rewritten_eq d d' sheet

end Lawful

theorem rejected_for_missing_asset :
    let sheet : DeclarationList :=
      ⟨.ofText "/s/a.css".toList, [⟨"background".toList, "url(x.png)".toList⟩]⟩
    let o : RewriteOptions := ⟨some "/p".toList, some (.ofText "/d".toList), .error⟩
    let d : Disk := ⟨.empty, ⟨[], 0⟩, {}⟩
    (o.apply d sheet).report.status = .rejected ∧
      StyleTree.declarations (o.apply d sheet).sheet = StyleTree.declarations sheet := by
  intro sheet o d
  obtain ⟨-, hboth, -⟩ := apply_all_or_nothing o d sheet
  obtain ⟨hends, hrejected⟩ := hboth (Option.some_ne_none _) (Option.some_ne_none _)
  have hjobs : CopyJob.firstOfEach (o.jobs d sheet) =
      [⟨.ofText "/s/x.png".toList, .ofText "/d/a_dumped_x.png".toList⟩] := by decide +kernel
  have hfind : d.find (.ofText "/s/x.png".toList) = .error .notFound := by
    rw [Disk.find, Disk.findFor, Disk.lead, Disk.leadBy, FileTree.follow.eq_def]
    decide +kernel
  have hstatus := hrejected.2 ⟨rfl, [], _, [], hjobs, _, CopyJob.run_of_find_error hfind⟩
  refine ⟨hstatus, (hends.resolve_left fun hcomplete => ?_).2⟩
  rw [hstatus] at hcomplete
  cases hcomplete.1

end RewriteOptions

end StyleAssets
