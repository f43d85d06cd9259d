import StyleAssets.Program
import StyleAssets.Proofs.Console.Sheet

/-!
# Runs, aloud

A run, and the program around it, with every line written when it is due and every text printed
when it is ready. It comes to the same as the run that collects its log.

* `Aloud.Ledger` — what such a run keeps of its sheets.
* `Aloud.Voices` — an action does with the ledger what becomes of a run, and says and prints what
  the run adds.
* `Aloud.voices_processSheet`, `Aloud.voices_ofPaths` — one sheet, and all sheets.
* `Aloud.runWith_eq` — **main result**: the program writes what the same program writes aloud.
-/

namespace StyleAssets

namespace Aloud

open Console

/-- What a run that speaks at once keeps of its sheets: the files written so far, among others. -/
structure Ledger where
  disk : Disk
  summary : RunSummary := {}
  written : List Path := []

/-! ## Handing on a text -/

/-- A text minified if that is wanted and possible. -/
def minifyIf [Minifier] (wanted : Bool) (css : Text) : Speaking Text :=
  if wanted then
    match Minifier.minify? css with
    | some minified => return minified
    | none => do
      say "warning" "could not minify stylesheet, writing it as-is"
      return css
  else return css

/-- Notes that a file is about to be written; the last text written to a file wins. -/
def claim (l : Ledger) (target : Path) : Speaking Ledger :=
  if l.written.any fun other => decide (other.Same target) then do
    say "warning" s!"`{target.display}` written more than once, last one wins"
    return l
  else return { l with written := target :: l.written }

/-- Writes the text of a stylesheet under its file name into a directory. -/
def save (l : Ledger) (directory source : Path) (css : Text) :
    Speaking (Ledger × Except RunError Unit) :=
  match source.fileName? with
  | none => return (l, .error (.noFileName source))
  | some name => do
    let target := directory.join ⟨name⟩
    let l ← claim l target
    match l.disk.makeDirectories directory with
    | (disk, .error cause) => return ({ l with disk }, .error (.uncreatable directory cause))
    | (disk, .ok ()) =>
      match disk.write target (Utf8.encode css) with
      | .error cause => return ({ l with disk }, .error (.unwritable target cause))
      | .ok disk => return ({ l with disk }, .ok ())

/-- Hands on the text of a stylesheet. -/
def emit (c : Config) (l : Ledger) (source : Path) (css : Text) :
    Speaking (Ledger × Except RunError Unit) :=
  match c.outDir with
  | none => do
    print css
    if css.getLast? ≠ some '\n' then print ['\n']
    return (l, .ok ())
  | some directory => save l directory source css

/-! ## Sheets -/

/-- Says how many urls have been rewritten. -/
def sayProgress (source : Path) (rewritten : Nat) : Speaking Unit :=
  if rewritten = 0 then mention "rewrite" s!"{source.display}: unchanged"
  else say "rewrite" s!"{source.display}: {rewritten} url(s)"

/-- Reads, rewrites, minifies and hands on one stylesheet. -/
def processSheet [Minifier] (c : Config) (l : Ledger) (source : Path) :
    Speaking (Ledger × Except RunError Unit) := do
  match ← read l.disk source with
  | .error cause => return (l, .error (.unreadable source cause))
  | .ok sheet =>
    let (sheet, disk, report) ← apply c.rewriteOptions l.disk sheet
    sayProgress source report.rewritten
    let css ← minifyIf c.minify sheet.render
    match ← emit c { l with disk } source css with
    | (l, .error e) => return (l, .error e)
    | (l, .ok ()) => return ({ l with summary := l.summary.add report }, .ok ())

/-- Processes stylesheets in order, up to the first failure. -/
def processAll [Minifier] (c : Config) (l : Ledger) :
    List Path → Speaking (Ledger × Except RunError Unit)
  | [] => return (l, .ok ())
  | source :: rest => do
    match ← processSheet c l source with
    | (l, .error e) => return (l, .error e)
    | (l, .ok ()) => processAll c l rest

/-- Says the totals. -/
def sayTotals (s : RunSummary) : Speaking Unit := do
  say "done" (s!"{s.stylesheets} stylesheet(s), {s.rewritten} url(s) rewritten, " ++
    s!"{s.copied} asset(s) copied, {s.copyFailures} copy failure(s)")
  if s.skipped ≠ 0 then
    say "warning" s!"{s.skipped} stylesheet(s) skipped: missing prefix or dump directory"

/-- Processes stylesheets and says how it went. -/
def start [Minifier] (c : Config) (l : Ledger) (sheets : List Path) :
    Speaking (Ledger × Except RunError RunSummary) := do
  match ← processAll c l sheets with
  | (l, .error e) => return (l, .error e)
  | (l, .ok ()) =>
    sayTotals l.summary
    l.summary.rejected.forM fun p => say "error" s!"rejected `{p.display}`"
    return (l, l.summary.verdict)

/-- Warns of problems, and fails if one is fatal. -/
def finish (ds : Diagnostics) : Speaking (Except Diagnostics Unit) := do
  ds.warnings.forM fun d => say "warning" s!"[{d.setting.key}] {d.message}"
  return if ds.hasErrors then .error ds else .ok ()

/-- Processes the stylesheets that some paths name. -/
def ofPaths [Minifier] (c : Config) (d : Disk) (paths : List Path) :
    Speaking (Ledger × Except RunError RunSummary) :=
  let sheets := d.stylesheets paths
  if sheets.isEmpty then return ({ disk := d }, .error .noStylesheets)
  else do
    match ← finish (c.validate d sheets) with
    | .error problems => return ({ disk := d }, .error (.invalidConfig (.rejected problems)))
    | .ok () => start c { disk := d } sheets

/-! ## What they say -/

/-- What a run keeps of its sheets. -/
def ledgerOf (r : Run) : Ledger := ⟨r.disk, r.summary, r.written⟩

/-- The action does with the ledger what becomes of the run, and says and prints what the run
adds. -/
def Voices {α : Type} (action : Speaking (Ledger × α)) (r r' : Run) (answer : α) : Prop :=
  ∃ log printed, Says action (ledgerOf r', answer) log printed ∧
    r'.log = r.log ++ log ∧ r'.printed = r.printed ++ printed

namespace Voices

variable {α β : Type} {r r' r'' : Run} {answer : α} {last : β}

theorem silent (r' : Run) (answer : α) (hlog : r'.log = r.log) (hprinted : r'.printed = r.printed) :
    Voices (return (ledgerOf r', answer)) r r' answer :=
  ⟨[], [], Says.pure _, by rw [hlog, List.append_nil], by rw [hprinted, List.append_nil]⟩

theorem bind {action : Speaking (Ledger × α)} {next : Ledger × α → Speaking (Ledger × β)}
    (h : Voices action r r' answer) (hnext : Voices (next (ledgerOf r', answer)) r' r'' last) :
    Voices (action >>= next) r r'' last := by
  obtain ⟨log, printed, hsaid, hlog, hprinted⟩ := h
  obtain ⟨log', printed', hsaid', hlog', hprinted'⟩ := hnext
  refine ⟨log ++ log', printed ++ printed', hsaid.bind hsaid', ?_, ?_⟩
  · rw [hlog', hlog, List.append_assoc]
  · rw [hprinted', hprinted, List.append_assoc]

/-- Of the run before, only what it has said and printed matters. -/
theorem congr {action : Speaking (Ledger × α)} {other : Run} (h : Voices action r r' answer)
    (hlog : other.log = r.log) (hprinted : other.printed = r.printed) :
    Voices action other r' answer := by
  unfold Voices
  rw [hlog, hprinted]
  exact h

/-- Something is said before. -/
theorem after {action : Speaking α} {next : α → Speaking (Ledger × β)} {log : Log}
    (h : Says action answer log []) (hnext : Voices (next answer) (r.say log) r' last) :
    Voices (action >>= next) r r' last := by
  obtain ⟨log', printed, hsaid, hlog, hprinted⟩ := hnext
  refine ⟨log ++ log', printed, h.then_ hsaid, ?_, hprinted⟩
  rw [hlog, Run.say, List.append_assoc]

end Voices

theorem says_minifyIf [Minifier] (wanted : Bool) (css : Text) :
    Says (minifyIf wanted css) (StyleAssets.minifyIf wanted css).1
      (StyleAssets.minifyIf wanted css).2 [] := by
  unfold minifyIf StyleAssets.minifyIf
  split
  · cases Minifier.minify? css with
    | some minified => exact Says.pure minified
    | none => exact (Says.say "warning" _).return_
  · exact Says.pure css

theorem says_sayProgress (source : Path) (rewritten : Nat) :
    Says (sayProgress source rewritten) () (Run.progressLog source rewritten) [] := by
  unfold sayProgress Run.progressLog
  split
  · exact Says.mention _ _
  · exact Says.say _ _

theorem says_claim (r : Run) (target : Path) :
    ∃ log, Says (claim (ledgerOf r) target) (ledgerOf (r.claim target)) log [] ∧
      (r.claim target).log = (r.say log).log ∧ (r.claim target).printed = r.printed := by
  unfold claim Run.claim ledgerOf
  simp only
  split
  · exact ⟨_, (Says.say "warning" _).return_, rfl, rfl⟩
  · exact ⟨[], Says.pure _, (List.append_nil r.log).symm, rfl⟩

theorem voices_save (r : Run) (directory source : Path) (css : Text) :
    Voices (save (ledgerOf r) directory source css) r (r.save directory source css).1
      (r.save directory source css).2 := by
  unfold save Run.save
  cases source.fileName? with
  | none => exact Voices.silent r _ rfl rfl
  | some name =>
    obtain ⟨log, hclaim, hlog, hprinted⟩ := says_claim r (directory.join ⟨name⟩)
    refine Voices.after hclaim ?_
    simp only
    show Voices (match (r.claim (directory.join ⟨name⟩)).disk.makeDirectories directory with
      | (disk, .error cause) => _
      | (disk, .ok ()) => _) _ _ _
    generalize r.claim (directory.join ⟨name⟩) = claimed at hlog hprinted ⊢
    obtain ⟨made, result⟩ := claimed.disk.makeDirectories directory
    cases result with
    | error cause => exact Voices.silent { claimed with disk := made } _ hlog hprinted
    | ok _ =>
      simp only
      cases made.write (directory.join ⟨name⟩) (Utf8.encode css) with
      | error cause => exact Voices.silent { claimed with disk := made } _ hlog hprinted
      | ok e => exact Voices.silent { claimed with disk := e } _ hlog hprinted

theorem voices_emit (c : Config) (r : Run) (source : Path) (css : Text) :
    Voices (emit c (ledgerOf r) source css) r (Run.emit c r source css).1
      (Run.emit c r source css).2 := by
  unfold emit Run.emit
  cases c.outDir with
  | some directory => exact voices_save r directory source css
  | none =>
    refine ⟨[], css ++ if css.getLast? = some '\n' then [] else ['\n'], ?_, ?_, ?_⟩
    · refine Says.bind (Says.print css) ?_
      by_cases hended : css.getLast? = some '\n'
      · simp only [hended, ne_eq, not_true, if_false, if_true]
        exact Says.pure _
      · simp only [hended, ne_eq, not_false_iff, if_false, if_true]
        exact (Says.print ['\n']).return_
    · exact (List.append_nil r.log).symm
    · exact List.append_assoc _ _ _

/-- **One sheet, aloud and in silence.** -/
theorem voices_processSheet [Minifier] (c : Config) (r : Run) (source : Path) :
    Voices (processSheet c (ledgerOf r) source) r (Run.process c r source).1
      (Run.process c r source).2 := by
  have hread := says_read r.disk source
  unfold processSheet Run.process
  cases hresult : Stylesheet.read r.disk source with
  | error cause =>
    rw [hresult] at hread
    exact Voices.after hread (Voices.silent r _ (List.append_nil r.log).symm rfl)
  | ok sheet =>
    rw [hresult] at hread
    refine Voices.after hread (Voices.after (says_apply c.rewriteOptions r.disk sheet)
      (Voices.after (says_sayProgress source _) (Voices.after (says_minifyIf c.minify _) ?_)))
    simp only
    generalize c.rewriteOptions.apply r.disk sheet = applied
    generalize hsaid : Run.say { r with disk := applied.disk } _ = said
    refine Voices.congr (r := said) ?_ ?_ ?_
    · have hemit := voices_emit c said source (StyleAssets.minifyIf c.minify applied.sheet.render).1
      have hledger : ledgerOf said = { ledgerOf r with disk := applied.disk } := by
        rw [← hsaid]
        rfl
      rw [hledger] at hemit
      generalize Run.emit c said source _ = emitted at hemit ⊢
      obtain ⟨last, answer⟩ := emitted
      cases answer with
      | error e => exact hemit.bind (.silent last _ rfl rfl)
      | ok _ =>
        exact hemit.bind
          (.silent { last with summary := last.summary.add applied.report } _ rfl rfl)
    · rw [← hsaid]
      simp [Run.say]
    · rw [← hsaid]
      rfl

/-- All sheets. -/
theorem voices_processAll [Minifier] (c : Config) (r : Run) (sheets : List Path) :
    Voices (processAll c (ledgerOf r) sheets) r (Run.processAll c r sheets).1
      (Run.processAll c r sheets).2 := by
  induction sheets generalizing r with
  | nil => exact .silent r _ rfl rfl
  | cons source rest ih =>
    have hsheet := voices_processSheet c r source
    unfold processAll Run.processAll
    generalize Run.process c r source = processed at hsheet ⊢
    obtain ⟨last, answer⟩ := processed
    cases answer with
    | error e => exact hsheet.bind (.silent last _ rfl rfl)
    | ok _ => exact hsheet.bind (ih last)

theorem says_sayTotals (s : RunSummary) : Says (sayTotals s) () s.log [] := by
  unfold sayTotals RunSummary.log
  by_cases hnone : s.skipped = 0
  · simp only [hnone, ne_eq, not_true, if_false, if_true]
    exact (Says.say "done" _).then_ (.pure ())
  · simp only [hnone, ne_eq, not_false_iff, if_false, if_true]
    exact (Says.say "done" _).then_ (.say "warning" _)

theorem voices_start [Minifier] (c : Config) (r : Run) (sheets : List Path) :
    Voices (start c (ledgerOf r) sheets) r (Run.start c r sheets).1 (Run.start c r sheets).2 := by
  have hall := voices_processAll c r sheets
  unfold start Run.start
  generalize Run.processAll c r sheets = processed at hall ⊢
  obtain ⟨last, answer⟩ := processed
  cases answer with
  | error e => exact hall.bind (.silent last _ rfl rfl)
  | ok _ =>
    refine hall.bind (.after (says_sayTotals last.summary) (.after
      (.forM last.summary.rejected fun p => .say _ _) (.silent
        (last.say (last.summary.log ++ last.summary.rejectedLog)) _ ?_ rfl)))
    simp [Run.say, RunSummary.rejectedLog, LogEntry.error]

theorem says_finish (ds : Diagnostics) : Says (finish ds) ds.finish.1 ds.finish.2 [] := by
  unfold finish Diagnostics.finish
  exact (Says.forM ds.warnings fun d => .say _ _).return_

/-- **A whole run, aloud and in silence.** -/
theorem voices_ofPaths [Minifier] (c : Config) (d : Disk) (paths : List Path) :
    Voices (ofPaths c d paths) { disk := d } (Run.ofPaths c d paths).1
      (Run.ofPaths c d paths).2 := by
  unfold ofPaths Run.ofPaths
  simp only
  split
  · exact .silent { disk := d } _ rfl rfl
  · have hfinish := says_finish (c.validate d (d.stylesheets paths))
    generalize (c.validate d (d.stylesheets paths)).finish = finished at hfinish ⊢
    obtain ⟨result, log⟩ := finished
    cases result with
    | error problems => exact .after hfinish (.silent (Run.say { disk := d } log) _ rfl rfl)
    | ok _ => exact .after hfinish (voices_start c (Run.say { disk := d } log) _)

theorem says_ofPaths [Minifier] (c : Config) (d : Disk) (paths : List Path) :
    Says (ofPaths c d paths) (ledgerOf (Run.ofPaths c d paths).1, (Run.ofPaths c d paths).2)
      (Run.ofPaths c d paths).1.log (Run.ofPaths c d paths).1.printed := by
  obtain ⟨log, printed, hsaid, hlog, hprinted⟩ := voices_ofPaths c d paths
  rw [hlog, hprinted]
  exact hsaid

/-! ## The program -/

/-- Names the keys of a configuration file that mean nothing. -/
def sayUnknown (file : Path) (fields : List Text) : Speaking Unit :=
  if fields.isEmpty then return ()
  else do
    say "warning" s!"unknown fields in {file.display}, ignoring:"
    fields.forM fun field => line ("- " ++ String.ofList field)

/-- The settings for some arguments. -/
def load (s : Surroundings) (a : Arguments) : Speaking (Except ConfigError Config) :=
  match s.disk.cwdPath? with
  | none => return .error .noWorkingDirectory
  | some cwd =>
    match Config.file? s.disk cwd a with
    | none => return .ok ((Config.anchored s cwd {}).override s cwd a)
    | some file =>
      match Config.readFile s.disk file with
      | .error e => return .error e
      | .ok (c, unknown) => do
        sayUnknown file unknown
        let c := (Config.anchored s (file.parent?.getD cwd) c).override s cwd a
        return .ok { c with configPath := some file }

/-- Why a run has failed, if it has. -/
def failure? : Except RunError RunSummary → Option RunError
  | .ok _ => none
  | .error e => some e

/-- The program with arguments that ask for a run: the disk it leaves, and why it fails. -/
def session [Minifier] (s : Surroundings) (a : Arguments) : Speaking (Disk × Option RunError) := do
  match ← load s a with
  | .error e => return (s.disk, some (.invalidConfig e))
  | .ok c =>
    let (l, verdict) ← ofPaths c s.disk a.paths
    return (l.disk, failure? verdict)

/-- What the program leaves behind when it speaks at once. -/
def runWith [Minifier] (s : Surroundings) (terminal : Bool) (a : Arguments) : Program.Finished :=
  let colour := Program.showsColour terminal a.colour
  let ((disk, error?), k) := (session s a).run { verbose := a.verbose, colour }
  match error? with
  | none => { disk, stdout := k.stdout, stderr := String.join k.stderr }
  | some e =>
    { disk, stdout := k.stdout, exitCode := 1,
      stderr := String.join k.stderr ++ Program.errorText (e.message colour) e.cause? }

theorem says_sayUnknown (file : Path) (fields : List Text) :
    Says (sayUnknown file fields) () (Config.unknownFieldsLog file fields) [] := by
  unfold sayUnknown Config.unknownFieldsLog
  split
  · exact .pure ()
  · exact (Says.say "warning" _).then_ (.forM fields fun field => .line _)

theorem says_load (s : Surroundings) (a : Arguments) :
    Says (load s a) (Config.load s a).1 (Config.load s a).2 [] := by
  unfold load Config.load
  cases s.disk.cwdPath? with
  | none => exact .pure _
  | some cwd =>
    simp only
    unfold Config.loadFrom
    cases Config.file? s.disk cwd a with
    | none => exact .pure _
    | some file =>
      simp only
      cases Config.readFile s.disk file with
      | error e => exact .pure _
      | ok reading => exact (says_sayUnknown file reading.2).return_

theorem says_session_of_error [Minifier] {s : Surroundings} {a : Arguments} {e : ConfigError}
    {log : Log} (h : Config.load s a = (.error e, log)) :
    Says (session s a) (s.disk, some (.invalidConfig e)) log [] := by
  have hload := says_load s a
  rw [h] at hload
  have hsaid : Says (session s a) (s.disk, some (.invalidConfig e)) (log ++ []) [] :=
    hload.then_ (.pure _)
  rwa [List.append_nil] at hsaid

theorem says_session [Minifier] {s : Surroundings} {a : Arguments} {c : Config} {log : Log}
    (h : Config.load s a = (.ok c, log)) :
    Says (session s a) ((Run.ofPaths c s.disk a.paths).1.disk,
        failure? (Run.ofPaths c s.disk a.paths).2)
      (log ++ (Run.ofPaths c s.disk a.paths).1.log) (Run.ofPaths c s.disk a.paths).1.printed := by
  have hload := says_load s a
  rw [h] at hload
  exact hload.then_ (says_ofPaths c s.disk a.paths).return_

/-- **The program writes what it writes aloud**: it does not matter that it collects its log. -/
theorem runWith_eq [Minifier] (s : Surroundings) (terminal : Bool) (a : Arguments) :
    Program.runWith s terminal a = runWith s terminal a := by
  unfold Program.runWith runWith
  cases hload : Config.load s a with
  | mk result log =>
    cases result with
    | error e =>
      have hsaid := says_session_of_error hload
        { verbose := a.verbose, colour := Program.showsColour terminal a.colour }
      simp only [hsaid]
      rfl
    | ok c =>
      have hsaid := says_session hload
        { verbose := a.verbose, colour := Program.showsColour terminal a.colour }
      simp only [hsaid]
      generalize Run.ofPaths c s.disk a.paths = ran
      obtain ⟨r, verdict⟩ := ran
      cases verdict with
      | error e => rfl
      | ok summary => rfl

end Aloud

end StyleAssets
