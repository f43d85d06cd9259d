import Mathlib.Data.Finset.Card
import StyleAssets.Proofs.Rewrite.Spelling

/-!
# What reports account for

The numbers in a report add up: every declaration is counted once, and so is every copy.

* `SkipCounts.foldl_add`, `Outcome.countP_add` — each counter counts the outcomes of one kind, and
  together they count all of them.
* `CopyJob.copied_add_failures`, `CopyJob.length_firstOfEach` — every copy that is run succeeds or
  fails, and one is run for each target.
* `Settings.value_ne_of_rewrite` — a new value is never the old one.
* `RewriteOptions.apply_accounts` — **main result**.
-/

namespace StyleAssets

/-! ## Outcomes -/

namespace SkipCounts

/-- One more outcome counts once where it belongs, and nowhere else. -/
theorem add_eq (c : SkipCounts) (outcome : Outcome) : c.add outcome =
    { dataUri := c.dataUri + if outcome matches .skip (.dataUri _) then 1 else 0
      absolute := c.absolute + if outcome matches .skip (.absolute _) then 1 else 0
      external := c.external + if outcome matches .skip (.externalProtocol _) then 1 else 0
      malformed := c.malformed + if outcome matches .skip (.malformed _) then 1 else 0 } := by
  cases outcome with
  | untouched => rfl
  | skip reason => cases reason <;> rfl
  | rewrite raw value job => rfl

/-- **Each counter counts the outcomes of one kind.** -/
theorem foldl_add (all : List Outcome) (c : SkipCounts) : all.foldl add c =
    { dataUri := c.dataUri + all.countP (· matches .skip (.dataUri _))
      absolute := c.absolute + all.countP (· matches .skip (.absolute _))
      external := c.external + all.countP (· matches .skip (.externalProtocol _))
      malformed := c.malformed + all.countP (· matches .skip (.malformed _)) } := by
  induction all generalizing c with
  | nil => rfl
  | cons outcome all ih =>
    rw [List.foldl_cons, ih, add_eq]
    simp only [List.countP_cons, Nat.add_assoc, Nat.add_comm]

end SkipCounts

/-- Every outcome is of one kind: left alone, skipped or a rewrite. -/
theorem Outcome.countP_add (all : List Outcome) :
    all.countP (· matches .untouched) + (all.foldl SkipCounts.add {}).total +
      all.countP (· matches .rewrite ..) = all.length := by
  rw [SkipCounts.foldl_add]
  induction all with
  | nil => rfl
  | cons outcome all ih =>
    simp only [SkipCounts.total, List.countP_cons, List.length_cons] at ih ⊢
    cases outcome with
    | untouched => simp; omega
    | skip reason => cases reason <;> simp <;> omega
    | rewrite raw value job => simp; omega

/-- As many copies are asked for as there are rewrites. -/
theorem Outcome.length_job? (all : List Outcome) :
    (all.filterMap job?).length = all.countP (· matches .rewrite ..) := by
  rw [List.length_filterMap_eq_countP]
  refine List.countP_congr fun outcome _ => ?_
  cases outcome <;> simp [job?]

theorem Outcome.length_newValue? (all : List Outcome) :
    (all.filterMap newValue?).length = all.countP (· matches .rewrite ..) := by
  rw [List.length_filterMap_eq_countP]
  refine List.countP_congr fun outcome _ => ?_
  cases outcome <;> simp [newValue?]

/-! ## Copies -/

namespace CopyJob

/-- **Every copy that is run succeeds or fails.** -/
theorem copied_add_failures (d : Disk) (jobs : List CopyJob) :
    (runEach d jobs).2.copied + (runEach d jobs).2.failures.length = jobs.length := by
  induction jobs generalizing d with
  | nil => rfl
  | cons job jobs ih =>
    rw [runEach_cons, List.length_cons, ← ih (job.attempt d).1]
    cases (job.attempt d).2 with
    | ok bytes => exact Nat.add_right_comm _ _ _
    | error failure => rfl

/-- **One copy is run for each target.** -/
theorem length_firstOfEach (jobs : List CopyJob) :
    (firstOfEach jobs).length = (jobs.map (·.target.components)).toFinset.card := by
  have hnodup : ((firstOfEach jobs).map (·.target.components)).Nodup :=
    List.pairwise_map.2 (firstOfEach_pairwise jobs)
  have hsame : ((firstOfEach jobs).map (·.target.components)).toFinset =
      (jobs.map (·.target.components)).toFinset := by
    ext target
    simp only [List.mem_toFinset, List.mem_map]
    constructor
    · rintro ⟨job, hjob, rfl⟩
      exact ⟨job, (firstOfEach_sublist jobs).subset hjob, rfl⟩
    · rintro ⟨job, hjob, rfl⟩
      obtain ⟨first, hfirst, -, htarget⟩ := exists_first hjob
      exact ⟨first, hfirst, htarget⟩
  rw [← hsame, List.toFinset_card_of_nodup hnodup, List.length_map]

end CopyJob

/-! ## New values -/

/-- No url is quoted text that ends in the name of its copy: the name of the file would begin
before itself. -/
theorem UrlReference.inner_ne_of_kind {r : UrlReference} (hkind : r.kind = .localRelative)
    (hclose : ')' ∉ r.inner) (before : Text) :
    r.inner ≠ before ++ (OutputAsset.infixText ++ OutputAsset.baseName r.raw) ++ ['"'] := by
  intro hinner
  have hextension := Url.hasExtension_of_kind hkind
  have hplain := noDelimiter_raw hclose
  have hbase := OutputAsset.baseName_subset r.raw
  have hne : OutputAsset.infixText ≠ [] := by decide
  have htrimmed : Text.Trimmed (OutputAsset.infixText ++ OutputAsset.baseName r.raw) := by
    refine OutputAsset.trimmed_append_baseName hne (fun c hc => ?_) hextension
    cases hc
    rfl
  have hkept : (OutputAsset.baseName r.raw).filter (!isQuote ·) = OutputAsset.baseName r.raw :=
    filter_noDelimiter
      ⟨mt (hbase ·) hplain.close, mt (hbase ·) hplain.double, mt (hbase ·) hplain.single⟩
  have hquote : (OutputAsset.infixText ++ OutputAsset.baseName r.raw).filter (!isQuote ·) =
      OutputAsset.infixText ++ OutputAsset.baseName r.raw := by
    rw [List.filter_append, hkept]
    rfl
  obtain ⟨lead, hraw, hlead⟩ := OutputAsset.exists_lead hextension
  have hends := r.raw_around htrimmed (by simp [hne]) hquote hinner
  have hnone : Text.trimEnd (['"'].filter (!isQuote ·)) = [] := rfl
  rw [hnone, List.append_nil, ← List.append_assoc] at hends
  have hsame := List.append_cancel_right (hraw.symm.trans hends)
  obtain rfl | hslash := hlead
  · exact hne (List.append_eq_nil_iff.1 hsame.symm).2
  · rw [hsame, List.getLast?_append_of_ne_nil _ hne] at hslash
    cases hslash

/-- **A new value is never the old one.** -/
theorem Settings.value_ne_of_rewrite {s : Settings} {cwd : Option Path} {sheet : Path}
    {value raw new : Text} {job : CopyJob} (h : s.outcome cwd sheet value = .rewrite raw new job) :
    new ≠ value := by
  obtain ⟨r, hextract, hkind, rfl, -, rfl⟩ := s.outcome_eq_rewrite h
  obtain ⟨-, hclose⟩ := UrlReference.first?_of_extract hextract
  intro hsame
  rw [← UrlReference.value_of_extract hextract, newToken_eq] at hsame
  have htoken : UrlReference.opening ++ r.inner ++ [')'] = Css.urlAround _ :=
    (List.append_cancel_left (List.append_cancel_right hsame)).symm
  have hinner : r.inner = '"' :: (s.urlPrefix ++
      '/' :: (OutputAsset.derive cwd sheet r.raw).name) ++ ['"'] :=
    List.append_cancel_left (List.append_cancel_right htoken)
  refine UrlReference.inner_ne_of_kind hkind hclose
    ('"' :: (s.urlPrefix ++ '/' :: OutputAsset.stem sheet)) (hinner.trans ?_)
  simp only [OutputAsset.derive, List.cons_append, List.append_assoc]

/-- A value is left alone if it holds no `url(`, and only then. -/
theorem Settings.outcome_eq_untouched_iff (s : Settings) (cwd : Option Path) (sheet : Path)
    {value : Text} :
    s.outcome cwd sheet value = .untouched ↔ ¬UrlReference.opening <:+: value := by
  rw [← UrlReference.extract_eq_ok_none_iff]
  cases hextract : UrlReference.extract value with
  | error why => simp [outcome, hextract]
  | ok found =>
    cases found with
    | none => simp [outcome, hextract]
    | some r =>
      obtain hskip | ⟨new, job, hrewrite⟩ := s.outcome_cases cwd sheet hextract
      · simp only [reduceCtorEq, Except.ok.injEq, iff_false]
        intro huntouched
        simp [huntouched] at hskip
      · simp [hrewrite]

namespace RewriteOptions

variable {o : RewriteOptions} {cwd : Option Path} {sheet : Path} {x : Declaration}

theorem value_ne_of_rewrite {raw new : Text} {job : CopyJob}
    (h : o.outcome cwd sheet x = .rewrite raw new job) : new ≠ x.value := by
  obtain ⟨s, -, -, hrewrite⟩ := process_eq_ok (outcome_eq_rewrite h)
  exact Settings.value_ne_of_rewrite hrewrite

/-- A declaration changes if it is rewritten, and only then. -/
theorem put_ne_iff : x.value ≠ ((o.outcome cwd sheet x).put x).value ↔
    (o.outcome cwd sheet x matches .rewrite ..) = true := by
  cases houtcome : o.outcome cwd sheet x with
  | untouched => simp [Outcome.put, Outcome.newValue?]
  | skip reason => simp [Outcome.put, Outcome.newValue?]
  | rewrite raw new job =>
    simpa [Outcome.put, Outcome.newValue?] using (value_ne_of_rewrite houtcome).symm

/-- As many values are left alone as hold no `url(`. -/
theorem countP_untouched {dir : Path} {pre : Text} (hdir : o.dumpDir = some dir)
    (hpre : o.urlPrefix = some pre) (cwd : Option Path) (sheet : Path) (all : List Declaration) :
    (all.map (o.outcome cwd sheet)).countP (· matches .untouched) =
      all.countP fun x => ¬UrlReference.opening <:+: x.value := by
  rw [List.countP_map]
  refine List.countP_congr fun x _ => ?_
  have huntouched : o.outcome cwd sheet x = .untouched ↔ ¬UrlReference.opening <:+: x.value := by
    rw [outcome_of_settings hdir hpre]
    exact (Settings.mk pre dir).outcome_eq_untouched_iff cwd sheet
  rw [decide_eq_true_iff, ← huntouched, Function.comp]
  cases o.outcome cwd sheet x <;> simp

end RewriteOptions

/-! ## Reports -/

section

variable {σ : Type} [StyleTree σ]

theorem RewriteOptions.jobs_eq (o : RewriteOptions) (d : Disk) (sheet : σ) :
    o.jobs d sheet = ((StyleTree.declarations sheet).map
      (o.outcome d.cwdPath? (StyleTree.sourceFile sheet))).filterMap Outcome.job? := by
  rw [List.filterMap_map]
  rfl

variable [LawfulStyleTree σ]

/-- What the report of a sheet says of its declarations. -/
theorem Settings.report_apply (s : Settings) (policy : MissingAssetPolicy) (d : Disk) (sheet : σ) :
    let outcomes := (StyleTree.declarations sheet).map fun x =>
      s.outcome d.cwdPath? (StyleTree.sourceFile sheet) x.value
    let results := (CopyJob.runAll d (outcomes.filterMap Outcome.job?)).2.1
    let report := (s.apply policy d sheet).report
    report.skipped = outcomes.foldl SkipCounts.add {} ∧ report.copied = results.copied ∧
      report.rewritten =
        if report.status = .complete then outcomes.countP (· matches .rewrite ..) else 0 := by
  intro outcomes results report
  obtain ⟨hplanned, houtcomes⟩ := s.plan_spec d.cwdPath? sheet
  have hcommit := (commit_spec
    (fun x => s.outcome d.cwdPath? (StyleTree.sourceFile sheet) x.value)
    (s.plan d.cwdPath? sheet).1).2
  unfold report Settings.apply
  generalize s.plan d.cwdPath? sheet = plan at hplanned houtcomes hcommit ⊢
  obtain ⟨planned, outcomes'⟩ := plan
  obtain rfl : outcomes' = outcomes := houtcomes
  have hcount : (commit (outcomes.map Outcome.newValue?) planned).2 =
      outcomes.countP (· matches .rewrite ..) := by
    rw [← Outcome.length_newValue?, List.filterMap_map, List.map_map, ← hplanned]
    exact hcommit
  simp only
  split
  · rename_i hnone
    have hzero : outcomes.countP (· matches .rewrite ..) = 0 := by
      rw [← Outcome.length_job?, hnone]
      rfl
    refine ⟨rfl, ?_, ?_⟩
    · simp only [results, hnone]
      rfl
    · rw [if_pos rfl, hzero]
  · split
    · exact ⟨rfl, rfl, rfl⟩
    · exact ⟨rfl, rfl, hcount⟩

namespace RewriteOptions

variable (o : RewriteOptions) (d : Disk) (sheet : σ)

section

variable {o} {dir : Path} {pre : Text}

theorem report_apply (hdir : o.dumpDir = some dir) (hpre : o.urlPrefix = some pre) :
    let outcomes := (StyleTree.declarations sheet).map
      (o.outcome d.cwdPath? (StyleTree.sourceFile sheet))
    let results := (CopyJob.runAll d (o.jobs d sheet)).2.1
    let report := (o.apply d sheet).report
    report.skipped = outcomes.foldl SkipCounts.add {} ∧ report.copied = results.copied ∧
      report.rewritten =
        if report.status = .complete then outcomes.countP (· matches .rewrite ..) else 0 := by
  have hsettings : o.settings (StyleTree.sourceFile sheet) = .ok ⟨pre, dir⟩ := by
    rw [settings, hdir, hpre]
  rw [jobs_eq, outcome_of_settings hdir hpre, apply, hsettings]
  exact (Settings.mk pre dir).report_apply o.missing d sheet

/-- As many declarations differ as have got a new value. -/
theorem rewritten_apply (hdir : o.dumpDir = some dir) (hpre : o.urlPrefix = some pre) :
    (o.apply d sheet).report.rewritten =
      ((StyleTree.declarations sheet).zip (StyleTree.declarations (o.apply d sheet).sheet)).countP
        fun pair => pair.1.value ≠ pair.2.value := by
  obtain ⟨-, -, hcount⟩ := report_apply d sheet hdir hpre
  obtain ⟨-, hstatus, hsame⟩ | ⟨-, hstatus, hall⟩ :=
    o.apply_spec d sheet (hdir ▸ Option.some_ne_none dir) (hpre ▸ Option.some_ne_none pre)
  · rw [hcount, hstatus, if_neg nofun, hsame, List.zip_eq_zipWith, List.zipWith_self,
      List.countP_map]
    simp [Function.comp_def]
  · rw [hcount, hstatus, if_pos rfl, hall, rewritten, ← List.map_prod_left_eq_zip, List.countP_map,
      List.countP_map]
    refine List.countP_congr fun x _ => ?_
    simp only [Function.comp, decide_eq_true_eq]
    exact put_ne_iff.symm

end

/-- **The report accounts for every declaration and every copy.** Each declaration holds no `url(`,
is counted as skipped for its reason, or is one of those to be rewritten; for each target of the
planned copies one copy has succeeded or failed; and if the sheet is not left as it is, then exactly
the declarations that are to be rewritten change, each to a value that it did not have. -/
theorem apply_accounts (hdir : o.dumpDir ≠ none) (hpre : o.urlPrefix ≠ none) :
    let before := StyleTree.declarations sheet
    let outcome := o.outcome d.cwdPath? (StyleTree.sourceFile sheet)
    let report := (o.apply d sheet).report
    let after := StyleTree.declarations (o.apply d sheet).sheet
    let rewrites := before.countP fun x => outcome x matches .rewrite ..
    (∀ x, o.process d.cwdPath? (StyleTree.sourceFile sheet) x = .ok (outcome x)) ∧
    before.countP (fun x => ¬UrlReference.opening <:+: x.value) + report.skipped.total + rewrites =
      before.length ∧
    report.skipped =
      { dataUri := before.countP fun x => outcome x matches .skip (.dataUri _)
        absolute := before.countP fun x => outcome x matches .skip (.absolute _)
        external := before.countP fun x => outcome x matches .skip (.externalProtocol _)
        malformed := before.countP fun x => outcome x matches .skip (.malformed _) } ∧
    ((o.jobs d sheet).length = rewrites ∧ report.copied + report.failures.length =
      ((o.jobs d sheet).map (·.target.components)).toFinset.card) ∧
    (report.status = .complete ∧ report.rewritten = rewrites ∨
      report.status = .rejected ∧ report.rewritten = 0) ∧
    (after.length = before.length ∧ report.rewritten =
      (before.zip after).countP fun pair => pair.1.value ≠ pair.2.value) ∧
    ∀ x raw value job, outcome x = .rewrite raw value job → value ≠ x.value := by
  have hends := o.apply_spec d sheet hdir hpre
  obtain ⟨dir, hdir⟩ := Option.ne_none_iff_exists'.1 hdir
  obtain ⟨pre, hpre⟩ := Option.ne_none_iff_exists'.1 hpre
  obtain ⟨hskipped, hcopied, hrewritten⟩ := report_apply d sheet hdir hpre
  obtain ⟨-, hfailures, -⟩ := o.apply_runAll d sheet
  intro before outcome report after rewrites
  have hrewrites : (before.map outcome).countP (· matches .rewrite ..) = rewrites :=
    List.countP_map
  refine ⟨fun x => ?_, ?_, ?_, ⟨?_, ?_⟩, ?_, ⟨?_, rewritten_apply d sheet hdir hpre⟩,
    fun x raw value job => value_ne_of_rewrite⟩
  · rw [process_of_settings hdir hpre]
    exact congrArg Except.ok (congrFun (outcome_of_settings hdir hpre _ _) x).symm
  · rw [← countP_untouched hdir hpre d.cwdPath? (StyleTree.sourceFile sheet), ← hrewrites, hskipped,
      Outcome.countP_add, List.length_map]
  · rw [hskipped, SkipCounts.foldl_add]
    simp only [Nat.zero_add, List.countP_map]
    rfl
  · rw [← hrewrites, ← Outcome.length_job?, jobs_eq]
  · rw [hcopied, hfailures, ← CopyJob.length_firstOfEach]
    exact CopyJob.copied_add_failures d (CopyJob.firstOfEach (o.jobs d sheet))
  · rw [hrewrites] at hrewritten
    obtain ⟨-, hstatus, -⟩ | ⟨-, hstatus, -⟩ := hends
    · exact .inr ⟨hstatus, by rw [hrewritten, hstatus, if_neg nofun]⟩
    · exact .inl ⟨hstatus, by rw [hrewritten, hstatus, if_pos rfl]⟩
  · exact (o.apply_frame d sheet).length_eq.symm

end RewriteOptions

end

/-- A value of every kind, and two urls whose copies have one name. -/
theorem RewriteOptions.apply_accounts_mixed :
    let sheet : DeclarationList := ⟨.ofText "/s/a.css".toList, ["red", "url(x.png)",
      "url( 'i/x.png' )", "url(h://y.png)", "url(/z.png)", "url(#a)", "url()"].map
        fun value => ⟨[], value.toList⟩⟩
    let o : RewriteOptions := ⟨some "/p".toList, some (.ofText "/d".toList), .warn⟩
    let report := (o.apply ⟨.empty, ⟨[], 0⟩, {}⟩ sheet).report
    report.skipped = ⟨1, 1, 1, 1⟩ ∧ report.copied + report.failures.length = 1 ∧
      report.rewritten = 2 := by
  intro sheet o report
  obtain ⟨-, -, hskipped, ⟨-, hcopies⟩, hends, -, -⟩ :=
    apply_accounts o ⟨.empty, ⟨[], 0⟩, {}⟩ sheet (Option.some_ne_none _) (Option.some_ne_none _)
  have hstatus : report.status = .complete :=
    complete_of_warn rfl (Option.some_ne_none _) (Option.some_ne_none _)
  obtain ⟨-, hrewritten⟩ := hends.resolve_right fun h => Status.noConfusion (hstatus.symm.trans h.1)
  refine ⟨hskipped.trans ?_, hcopies.trans ?_, hrewritten.trans ?_⟩
  · decide +kernel
  · decide +kernel
  · decide +kernel

end StyleAssets
