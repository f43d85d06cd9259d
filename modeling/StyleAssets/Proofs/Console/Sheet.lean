import StyleAssets.Proofs.Console.Says
import StyleAssets.Proofs.Rewrite.Replacement

/-!
# Sheets, aloud

Rewriting a sheet, with every line written when it is due. It comes to the same as rewriting it in
silence and writing the log in the end.

* `Aloud.process` — what becomes of one declaration.
* `Aloud.apply` — a sheet is rewritten; `Aloud.run_apply` says how, for every kind of sheet, and
  `Aloud.says_apply` for stylesheets.
* `Aloud.read` — a stylesheet is read, with a warning for each block that is too deep.
-/

namespace StyleAssets

namespace Aloud

open Console

/-! ## One declaration -/

/-- A reference is left alone. -/
def skip (reason : SkipReason) : Speaking Outcome := do
  mention "skip" reason.message
  return .skip reason

/-- What becomes of a value of `sheet`. -/
def outcome (s : Settings) (cwd : Option Path) (sheet : Path) (value : Text) : Speaking Outcome :=
  match UrlReference.extract value with
  | .error why => skip (.malformed why)
  | .ok none => return .untouched
  | .ok (some r) =>
    match r.kind with
    | .dataUri => skip (.dataUri r.raw)
    | .absolute => skip (.absolute r.raw)
    | .externalProtocol => skip (.externalProtocol r.raw)
    | .localRelative => do
      let asset := OutputAsset.derive cwd sheet r.raw
      let value := r.before ++ s.newToken asset.name ++ r.after
      mention "rewrite" s!"{String.ofList r.raw} -> {String.ofList value}"
      return .rewrite r.raw value (.ofAsset asset s.dumpDir)

/-- What becomes of one declaration of a sheet; fails only if a setting is missing. -/
def process (o : RewriteOptions) (cwd : Option Path) (sheet : Path) (d : Declaration) :
    Speaking (Except MissingSetting Outcome) :=
  match o.settings sheet with
  | .error e => return .error e
  | .ok s => do return .ok (← outcome s cwd sheet d.value)

theorem says_skip (reason : SkipReason) :
    Says (skip reason) (.skip reason) (Outcome.skip reason).log [] :=
  (Says.mention "skip" reason.message).then_ (.pure _)

theorem says_outcome (s : Settings) (cwd : Option Path) (sheet : Path) (value : Text) :
    Says (outcome s cwd sheet value) (s.outcome cwd sheet value)
      (s.outcome cwd sheet value).log [] := by
  unfold outcome Settings.outcome
  cases UrlReference.extract value with
  | error why => exact says_skip _
  | ok found =>
    cases found with
    | none => exact Says.pure _
    | some r =>
      cases hkind : r.kind with
      | localRelative =>
        simp only [hkind]
        exact (Says.mention "rewrite" _).then_ (.pure _)
      | _ =>
        simp only [hkind]
        exact says_skip _

theorem says_process (o : RewriteOptions) (cwd : Option Path) (sheet : Path) (d : Declaration) :
    Says (process o cwd sheet d) (o.process cwd sheet d) (o.outcome cwd sheet d).log [] := by
  unfold process RewriteOptions.outcome RewriteOptions.process
  cases o.settings sheet with
  | error e => exact Says.pure _
  | ok s => exact (says_outcome s cwd sheet d.value).return_

/-! ## The first walk -/

variable {σ : Type} [StyleTree σ]

/-- Writes down what becomes of one declaration, last first, and keeps its value. -/
def note (s : Settings) (cwd : Option Path) (source : Path) (d : Declaration) :
    StateM (List Outcome × Console) Text := fun (outcomes, k) =>
  let (outcome, k) := (outcome s cwd source d.value).run k
  (d.value, outcome :: outcomes, k)

/-- The sheet after the first walk, and the outcome of every declaration in order. -/
def plan (s : Settings) (cwd : Option Path) (sheet : σ) : Speaking (σ × List Outcome) := fun k =>
  let (sheet, outcomes, k) :=
    (StyleTree.walk (note s cwd (StyleTree.sourceFile sheet)) sheet).run ([], k)
  ((sheet, outcomes.reverse), k)

theorem walk_note (s : Settings) (cwd : Option Path) (source : Path) (all : List Declaration)
    (seen : List Outcome) (k : Console) :
    let outcomes := all.map fun x => s.outcome cwd source x.value
    (Declaration.walk (note s cwd source) all).run (seen, k) =
      (all, outcomes.reverse ++ seen, k.after (outcomes.flatMap Outcome.log) []) := by
  induction all generalizing seen k with
  | nil => simp
  | cons d all ih =>
    have hnote : (note s cwd source d).run (seen, k) =
        (d.value, s.outcome cwd source d.value :: seen,
          k.after (s.outcome cwd source d.value).log []) := by
      have hsaid := says_outcome s cwd source d.value k
      show (d.value, ((outcome s cwd source d.value).run k).1 :: seen,
        ((outcome s cwd source d.value).run k).2) = _
      rw [hsaid]
    rw [Declaration.run_walk_cons, hnote]
    simp only [ih]
    simp

section Lawful

variable [LawfulStyleTree σ]

theorem run_plan (s : Settings) (cwd : Option Path) (sheet : σ) (k : Console) :
    StyleTree.declarations ((plan s cwd sheet).run k).1.1 = StyleTree.declarations sheet ∧
      ((plan s cwd sheet).run k).1.2 = (s.plan cwd sheet).2 ∧
      ((plan s cwd sheet).run k).2 = k.after ((s.plan cwd sheet).2.flatMap Outcome.log) [] := by
  have hwalk := walk_note s cwd (StyleTree.sourceFile sheet) (StyleTree.declarations sheet) [] k
  have hsheet :=
    LawfulStyleTree.declarations_walk (note s cwd (StyleTree.sourceFile sheet)) sheet ([], k)
  have hstate := LawfulStyleTree.state_walk (note s cwd (StyleTree.sourceFile sheet)) sheet ([], k)
  rw [hwalk] at hsheet hstate
  rw [(s.plan_spec cwd sheet).2]
  refine ⟨hsheet, ?_, ?_⟩
  · refine (congrArg (fun state => state.1.reverse) hstate).trans ?_
    simp
  · exact congrArg Prod.snd hstate

end Lawful

/-! ## Copies -/

/-- The first job for each target, in order, with a warning for each that gives way to a different
asset; `kept` are those already chosen. -/
def firstOfEach (kept : List CopyJob) : List CopyJob → Speaking (List CopyJob)
  | [] => return kept
  | job :: rest =>
    if kept.any fun k => decide (k.target.Same job.target) then do
      if CopyJob.clashes kept job then
        let source := job.source.display
        let target := job.target.display
        say "warning" s!"`{source}` and another asset both map to `{target}`, keeping the first"
      firstOfEach kept rest
    else firstOfEach (kept ++ [job]) rest

/-- Runs the first job for each target. -/
def runAll (d : Disk) (jobs : List CopyJob) : Speaking (Disk × CopyResults) := do
  return CopyJob.runEach d (← firstOfEach [] jobs)

theorem says_firstOfEach (kept jobs : List CopyJob) :
    Says (firstOfEach kept jobs) (kept ++ CopyJob.firstOfEachAfter kept jobs)
      (CopyJob.clashWarningsAfter kept jobs) [] := by
  induction jobs generalizing kept with
  | nil =>
    rw [CopyJob.firstOfEachAfter, List.append_nil]
    exact Says.pure kept
  | cons job jobs ih =>
    unfold firstOfEach CopyJob.firstOfEachAfter CopyJob.clashWarningsAfter
    split
    · split
      · exact (Says.say "warning" _).then_ (ih kept)
      · exact ih kept
    · have hrest := ih (kept ++ [job])
      rwa [List.append_assoc, List.singleton_append] at hrest

theorem says_runAll (d : Disk) (jobs : List CopyJob) :
    Says (runAll d jobs) ((CopyJob.runAll d jobs).1, (CopyJob.runAll d jobs).2.1)
      (CopyJob.runAll d jobs).2.2 [] :=
  (says_firstOfEach [] jobs).return_

/-! ## A whole sheet -/

/-- Says which copies have failed, if any, and what comes of it. -/
def sayFailures (policy : MissingAssetPolicy) (sheet : Path) (failures : List CopyFailure) :
    Speaking Unit :=
  if failures.isEmpty then return ()
  else match policy with
    | .error => do
      failures.forM fun f => say "error" s!"{f.message}: {f.cause.message}"
      say "error" s!"leaving `{sheet.display}` unmodified"
    | .warn =>
      failures.forM fun f =>
        say "warning" s!"{f.message}: {f.cause.message} (referenced from `{sheet.display}`)"

/-- What follows the copies. -/
def conclude (policy : MissingAssetPolicy) (tried : Report) (sheet : σ) (outcomes : List Outcome)
    (copied : Disk) : Speaking (σ × Disk × Report) := do
  sayFailures policy tried.sourceFile tried.failures
  if !tried.failures.isEmpty && policy == .error then
    return (sheet, copied, { tried with status := .rejected })
  else
    let (sheet, rewritten) := commit (outcomes.map Outcome.newValue?) sheet
    let report := { tried with rewritten }
    let skipped := toString report.skipped.total
    mention "rewrite"
      s!"{report.sourceFile.display}: {report.rewritten} rewritten, {skipped} skipped"
    return (sheet, copied, report)

/-- What follows the first walk. -/
def carryOut (policy : MissingAssetPolicy) (d : Disk) (source : Path) (sheet : σ)
    (outcomes : List Outcome) : Speaking (σ × Disk × Report) :=
  let planned : Report := { sourceFile := source, skipped := outcomes.foldl SkipCounts.add {} }
  match outcomes.filterMap Outcome.job? with
  | [] => return (sheet, d, planned)
  | jobs => do
    let (copied, results) ← runAll d jobs
    conclude policy { planned with copied := results.copied, failures := results.failures } sheet
      outcomes copied

/-- Rewrites a sheet; without the required settings it only says so. -/
def apply (o : RewriteOptions) (d : Disk) (sheet : σ) : Speaking (σ × Disk × Report) :=
  let source := StyleTree.sourceFile sheet
  match o.settings source with
  | .error e => do
    say "warning" e.message
    return (sheet, d, { sourceFile := source, status := .skipped e })
  | .ok s => do
    let (sheet, outcomes) ← plan s d.cwdPath? sheet
    carryOut o.missing d source sheet outcomes

/-- What is said of the copies that have failed. -/
abbrev failedLog (policy : MissingAssetPolicy) (sheet : Path) (failures : List CopyFailure) : Log :=
  if failures.isEmpty then [] else CopyFailure.log policy sheet failures

theorem says_sayFailures (policy : MissingAssetPolicy) (sheet : Path)
    (failures : List CopyFailure) :
    Says (sayFailures policy sheet failures) () (failedLog policy sheet failures) [] := by
  unfold sayFailures failedLog
  split
  · exact Says.pure ()
  · cases policy with
    | error => exact (Says.forM failures fun f => Says.say _ _).then_ (Says.say _ _)
    | warn => exact Says.forM failures fun f => Says.say _ _

theorem says_conclude_rejected {policy : MissingAssetPolicy} {tried : Report}
    (h : (!tried.failures.isEmpty && policy == .error) = true) (sheet : σ)
    (outcomes : List Outcome) (copied : Disk) :
    Says (conclude policy tried sheet outcomes copied)
      (sheet, copied, { tried with status := .rejected })
      (failedLog policy tried.sourceFile tried.failures) [] := by
  unfold conclude
  simp only [h, if_true]
  exact (says_sayFailures policy tried.sourceFile tried.failures).return_

theorem says_conclude_committed {policy : MissingAssetPolicy} {tried : Report}
    (h : (!tried.failures.isEmpty && policy == .error) = false) (sheet : σ)
    (outcomes : List Outcome) (copied : Disk) :
    let committed := commit (outcomes.map Outcome.newValue?) sheet
    let skipped := toString tried.skipped.total
    Says (conclude policy tried sheet outcomes copied)
      (committed.1, copied, { tried with rewritten := committed.2 })
      (failedLog policy tried.sourceFile tried.failures ++ [.debug "rewrite"
        s!"{tried.sourceFile.display}: {committed.2} rewritten, {skipped} skipped"]) [] := by
  unfold conclude
  simp only [h, Bool.false_eq_true, if_false]
  exact (says_sayFailures policy tried.sourceFile tried.failures).then_
    ((Says.mention "rewrite" _).then_ (.pure _))

section Lawful

variable [LawfulStyleTree σ]

/-- The second walk does the same to all sheets with the same declarations. -/
theorem commit_congr (planned : List (Option Text)) {sheet sheet' : σ}
    (h : StyleTree.declarations sheet = StyleTree.declarations sheet') :
    StyleTree.declarations (commit planned sheet).1 =
        StyleTree.declarations (commit planned sheet').1 ∧
      (commit planned sheet).2 = (commit planned sheet').2 := by
  have hsheet := fun sheet : σ => LawfulStyleTree.declarations_walk
    (fun d => modifyGet (Commit.next planned d)) sheet {}
  have hstate := fun sheet : σ => LawfulStyleTree.state_walk
    (fun d => modifyGet (Commit.next planned d)) sheet {}
  constructor
  · refine (hsheet sheet).trans ((hsheet sheet').trans ?_).symm
    rw [h]
  · refine congrArg Commit.rewritten ((hstate sheet).trans ((hstate sheet').trans ?_).symm)
    rw [h]

/-- What follows the first walk comes to the same for all sheets with the same declarations. -/
theorem says_carryOut (s : Settings) (policy : MissingAssetPolicy) (d : Disk) (sheet : σ)
    {walked : σ} (hwalked : StyleTree.declarations walked = StyleTree.declarations sheet) :
    let a := s.apply policy d sheet
    ∃ last log, Says (carryOut policy d (StyleTree.sourceFile sheet) walked
        (s.plan d.cwdPath? sheet).2) (last, a.disk, a.report) log [] ∧
      a.log = (s.plan d.cwdPath? sheet).2.flatMap Outcome.log ++ log ∧
      StyleTree.declarations last = StyleTree.declarations a.sheet ∧
      (last = walked ∨ ∃ planned, last = (commit planned walked).1) := by
  have hsame := hwalked.trans (s.plan_spec d.cwdPath? sheet).1.symm
  unfold Settings.apply carryOut
  generalize s.plan d.cwdPath? sheet = plan at hsame
  obtain ⟨planned, outcomes⟩ := plan
  simp only at hsame ⊢
  cases hjobs : outcomes.filterMap Outcome.job? with
  | nil => exact ⟨walked, [], Says.pure _, (List.append_nil _).symm, hsame, .inl rfl⟩
  | cons job jobs =>
    simp only
    have hcopies := says_runAll d (job :: jobs)
    generalize CopyJob.runAll d (job :: jobs) = copies at hcopies ⊢
    obtain ⟨copied, results, clashes⟩ := copies
    obtain ⟨hcommit, hcount⟩ := commit_congr (outcomes.map Outcome.newValue?) hsame
    cases hrejected : !results.failures.isEmpty && policy == .error with
    | true =>
      refine ⟨walked, clashes ++ _, hcopies.then_ (says_conclude_rejected hrejected walked outcomes
        copied), ?_, hsame, .inl rfl⟩
      exact List.append_assoc _ _ _
    | false =>
      let tried : Report :=
        { sourceFile := StyleTree.sourceFile sheet, copied := results.copied,
          skipped := outcomes.foldl SkipCounts.add {}, failures := results.failures }
      have hlast := @says_conclude_committed σ _ policy tried hrejected walked outcomes copied
      simp only [hcount] at hlast
      refine ⟨_, clashes ++ _, hcopies.then_ hlast, ?_, hcommit, .inr ⟨_, rfl⟩⟩
      simp [failedLog, tried]

/-- **Rewriting aloud and in silence come to the same**: to the same declarations, disk and report,
and to the same lines. -/
theorem run_apply (o : RewriteOptions) (d : Disk) (sheet : σ) (k : Console) :
    StyleTree.declarations ((apply o d sheet).run k).1.1 =
        StyleTree.declarations (o.apply d sheet).sheet ∧
      ((apply o d sheet).run k).1.2 = ((o.apply d sheet).disk, (o.apply d sheet).report) ∧
      ((apply o d sheet).run k).2 = k.after (o.apply d sheet).log [] := by
  rw [apply, RewriteOptions.apply]
  cases hsettings : o.settings (StyleTree.sourceFile sheet) with
  | error e =>
    have hsaid := (Says.say "warning" e.message).return_ (f := fun _ => (sheet, d,
      { sourceFile := StyleTree.sourceFile sheet, status := .skipped e : Report })) k
    rw [hsaid]
    exact ⟨rfl, rfl, rfl⟩
  | ok s =>
    obtain ⟨hwalked, houtcomes, hplan⟩ := run_plan s d.cwdPath? sheet k
    obtain ⟨last, log, hsaid, hlog, hlast, -⟩ := says_carryOut s o.missing d sheet hwalked
    have hrun : (plan s d.cwdPath? sheet >>= fun planned => carryOut o.missing d
        (StyleTree.sourceFile sheet) planned.1 planned.2).run k =
          ((last, (s.apply o.missing d sheet).disk, (s.apply o.missing d sheet).report),
            k.after (s.apply o.missing d sheet).log []) := by
      show (carryOut o.missing d (StyleTree.sourceFile sheet) ((plan s d.cwdPath? sheet).run k).1.1
        ((plan s d.cwdPath? sheet).run k).1.2).run ((plan s d.cwdPath? sheet).run k).2 = _
      rw [houtcomes, hplan, hsaid, Console.after_after, hlog, List.append_nil]
    exact ⟨by rw [hrun]; exact hlast, by rw [hrun], by rw [hrun]⟩

end Lawful

/-! ## Stylesheets -/

theorem walked_apply (o : RewriteOptions) (d : Disk) (sheet : Stylesheet) (k : Console) :
    sheet.Walked ((apply o d sheet).run k).1.1 := by
  rw [apply]
  cases hsettings : o.settings (StyleTree.sourceFile sheet) with
  | error e => exact .refl
  | ok s =>
    obtain ⟨hwalked, houtcomes, -⟩ := run_plan s d.cwdPath? sheet k
    obtain ⟨last, log, hsaid, -, -, hlast⟩ := says_carryOut s o.missing d sheet hwalked
    have hplan : sheet.Walked ((plan s d.cwdPath? sheet).run k).1.1 := .walk .refl _ _
    show sheet.Walked ((carryOut o.missing d (StyleTree.sourceFile sheet)
      ((plan s d.cwdPath? sheet).run k).1.1 ((plan s d.cwdPath? sheet).run k).1.2).run
      ((plan s d.cwdPath? sheet).run k).2).1.1
    rw [houtcomes, hsaid]
    rcases hlast with rfl | ⟨planned, rfl⟩
    · exact hplan
    · exact .walk hplan (fun x => modifyGet (Commit.next planned x)) {}

/-- **A stylesheet is rewritten aloud as in silence.** -/
theorem says_apply (o : RewriteOptions) (d : Disk) (sheet : Stylesheet) :
    Says (apply o d sheet)
      ((o.apply d sheet).sheet, (o.apply d sheet).disk, (o.apply d sheet).report)
      (o.apply d sheet).log [] := by
  intro k
  obtain ⟨hdeclarations, hrest, hconsole⟩ := run_apply o d sheet k
  have hsheet := (walked_apply o d sheet k).eq_of_declarations
    (Stylesheet.walked_apply o d sheet) hdeclarations
  exact Prod.ext (Prod.ext hsheet hrest) hconsole

/-! ## Reading -/

/-- The warning of a block that is nested too deep. -/
def tooDeepWarning : LogEntry :=
  .warning s!"blocks nested deeper than {toString Css.deepest} levels are left untouched"

/-- Takes one token, and warns of a block that is nested too deep. -/
def step (s : Css.Scanner) (t : Css.Token) : Speaking Css.Scanner := do
  let next := s.step t
  if s.tooDeep < next.tooDeep then
    let limit := toString Css.deepest
    say "warning" s!"blocks nested deeper than {limit} levels are left untouched"
  return next

/-- The stylesheet in a file. -/
def read (d : Disk) (p : Path) : Speaking (Except FileError Stylesheet) :=
  match d.readText p with
  | .error e => return .error e
  | .ok text => do
    let last ← (Css.tokens text).foldlM step {}
    let found := last.settled.reverse
    return .ok ⟨d.normalize p, text, found.map fun f => ⟨f, f.value⟩, last.tooDeep⟩

/-- A token opens at most one block that is too deep. -/
theorem tooDeep_step (s : Css.Scanner) (t : Css.Token) :
    (s.step t).tooDeep = s.tooDeep ∨ (s.step t).tooDeep = s.tooDeep + 1 := by
  have hpush : ∀ (s : Css.Scanner) (t : Css.Token), (s.push t).tooDeep = s.tooDeep := by
    intro s t
    unfold Css.Scanner.push
    split <;> rfl
  unfold Css.Scanner.step
  simp only
  split
  · left
    unfold Css.Scanner.pass
    simp only
    split
    · rfl
    · exact hpush s _
  · unfold Css.Scanner.take
    split
    · split
      · exact .inl rfl
      · exact .inl (hpush s t)
    · exact .inl rfl
    · split
      · exact .inl rfl
      · exact .inr rfl
    · split
      · exact .inl rfl
      · exact .inl rfl
    · exact .inl (hpush s _)
    · exact .inl (hpush s t)

theorem says_step (s : Css.Scanner) (t : Css.Token) :
    Says (step s t) (s.step t) (.replicate ((s.step t).tooDeep - s.tooDeep) tooDeepWarning) [] := by
  unfold step
  simp only
  rcases tooDeep_step s t with hsame | hmore
  · rw [if_neg (by omega), hsame, Nat.sub_self]
    exact Says.pure _
  · rw [if_pos (by omega), hmore, Nat.add_sub_cancel_left]
    exact (Says.say "warning" _).return_

theorem says_foldlM_step (s : Css.Scanner) (ts : List Css.Token) :
    Says (ts.foldlM step s) (ts.foldl Css.Scanner.step s)
        (.replicate ((ts.foldl Css.Scanner.step s).tooDeep - s.tooDeep) tooDeepWarning) [] ∧
      s.tooDeep ≤ (ts.foldl Css.Scanner.step s).tooDeep := by
  induction ts generalizing s with
  | nil =>
    refine ⟨?_, Nat.le_refl _⟩
    rw [List.foldl_nil, Nat.sub_self]
    exact Says.pure s
  | cons t ts ih =>
    obtain ⟨hrest, hle⟩ := ih (s.step t)
    have hstep := tooDeep_step s t
    rw [List.foldl_cons]
    refine ⟨?_, by omega⟩
    have hsum : (ts.foldl Css.Scanner.step (s.step t)).tooDeep - s.tooDeep =
        (s.step t).tooDeep - s.tooDeep +
          ((ts.foldl Css.Scanner.step (s.step t)).tooDeep - (s.step t).tooDeep) := by
      omega
    rw [hsum, List.replicate_add]
    exact (says_step s t).then_ hrest

/-- **A stylesheet is read aloud as in silence.** -/
theorem says_read (d : Disk) (p : Path) :
    Says (read d p) (Stylesheet.read d p)
      (match Stylesheet.read d p with
        | .ok sheet => sheet.warnings
        | .error _ => []) [] := by
  unfold read Stylesheet.read
  cases d.readText p with
  | error e => exact Says.pure _
  | ok text => exact (says_foldlM_step {} (Css.tokens text)).1.return_

end Aloud

end StyleAssets
