import StyleAssets.Proofs.Console.Run
import StyleAssets.Proofs.Run.LastText

/-!
# Flags

Whether details are wanted and whether messages are coloured decides what is written to standard
error, and nothing else.

* `Spans` — a text of which parts may be coloured; `RunError.message_eq` says that errors are such
  texts.
* `Run.exists_printed` — a run prints the texts of its sheets, and nothing else.
* `Indifferent` — an action does the same whatever the flags; without details it writes the same
  lines but those of details.
* `Aloud.flags_change_nothing` — **main result**: so do the decision on a declaration, the rewriting
  of a sheet, a run, and the program around it.
-/

namespace StyleAssets

/-! ## Coloured texts -/

/-- Texts one after the other, each with the terminal codes it is set in, if any. -/
abbrev Spans := List (Option String × String)

/-- The texts, set in their codes if colours are wanted. -/
def Spans.render (colour : Bool) (spans : Spans) : String :=
  String.join (spans.map fun (codes?, text) => match codes? with
    | some codes => Colour.paint colour codes text
    | none => text)

theorem Spans.render_append (colour : Bool) (spans spans' : Spans) :
    render colour (spans ++ spans') = render colour spans ++ render colour spans' := by
  rw [render, List.map_append, String.join_append]
  rfl

/-- A diagnostic and what comes before it. -/
def Diagnostic.spans (d : Diagnostic) : Spans :=
  [(none, "\n\n"), (none, "["), (some "36", d.setting.key), (none, "] " ++ d.message ++ "\n  "),
    (some "33", "hint:"), (none, " " ++ d.hint)]

theorem Diagnostic.render_eq (colour : Bool) (d : Diagnostic) :
    "\n\n" ++ d.render colour = d.spans.render colour := by
  simp [render, spans, Spans.render, String.join_cons, String.append_assoc]

/-- All fatal problems under a title that counts them. -/
def Diagnostics.spans (ds : Diagnostics) : Spans :=
  (some "31;1", s!"config rejected ({toString (errors ds).length} problem(s)):") ::
    (errors ds).flatMap Diagnostic.spans

theorem Diagnostics.render_eq (colour : Bool) (ds : Diagnostics) :
    ds.render colour = ds.spans.render colour := by
  have hall : ∀ problems : Diagnostics, Spans.render colour (problems.flatMap Diagnostic.spans) =
      String.join (problems.map fun d => "\n\n" ++ d.render colour) := by
    intro problems
    induction problems with
    | nil => rfl
    | cons d problems ih =>
      rw [List.flatMap_cons, Spans.render_append, ih, List.map_cons, String.join_cons,
        d.render_eq]
  unfold Diagnostics.render
  rw [String.join_cons, ← hall]
  exact String.join_cons.symm

/-- The message of an error, with what may be coloured in it. -/
def RunError.spans : RunError → Spans
  | .invalidConfig (.rejected problems) => problems.spans
  | e => [(none, e.message false)]

/-- **Colours do not change the text of an error**, but for the terminal codes. -/
theorem RunError.message_eq (colour : Bool) (e : RunError) :
    e.message colour = e.spans.render colour := by
  unfold RunError.spans
  split
  · exact Diagnostics.render_eq colour _
  · rename_i hother
    have hplain : Spans.render colour [(none, e.message false)] = e.message false := by
      simp [Spans.render, String.join_cons]
    rw [hplain]
    cases e with
    | invalidConfig cause =>
      cases cause with
      | rejected problems => exact absurd rfl (hother problems)
      | _ => rfl
    | _ => rfl

/-! ## What is printed -/

namespace Run

variable {c : Config} {r r' : Run} {p : Path}

theorem printed_claim (r : Run) (target : Path) : (r.claim target).printed = r.printed := by
  unfold claim
  split
  · rfl
  · rfl

theorem printed_save (r : Run) (directory source : Path) (css : Text) :
    (r.save directory source css).1.printed = r.printed := by
  unfold save
  split
  · rfl
  · simp only
    split
    · exact printed_claim r _
    · split
      · exact printed_claim r _
      · exact printed_claim r _

/-- A run that ends with a sheet prints nothing for it. -/
theorem printed_of_error [Minifier] {e : RunError} (h : process c r p = (r', .error e)) :
    r'.printed = r.printed := by
  unfold process at h
  split at h
  · cases h
    rfl
  · simp only [emit] at h
    cases hdirectory : c.outDir with
    | none =>
      rw [hdirectory] at h
      cases h
    | some directory =>
      rw [hdirectory] at h
      simp only at h
      split at h
      · rename_i last cause hsave
        cases h
        have hprinted := congrArg (fun result => result.1.printed) hsave
        simp only [printed_save] at hprinted
        exact hprinted.symm
      · cases h

theorem printed_advance [Minifier] {s : Stage} {d e : Disk}
    (hstore : c.store d s.path (s.text c) = some e) :
    (r.advance c s).printed =
      r.printed ++ if c.outDir = none then ended (s.text c) else [] := by
  obtain ⟨hnone, -⟩ | ⟨directory, target, -, -, hsome, htarget, -⟩ :=
    Config.store_eq_some hstore
  · have hprinted := printed_foldl_advance hnone r [s]
    simp only [List.foldl_cons, List.foldl_nil, List.flatMap_cons, List.flatMap_nil,
      List.append_nil] at hprinted
    rw [if_pos hnone, hprinted]
  · rw [if_neg (by simp [hsome]), List.append_nil]
    unfold advance handOn
    rw [htarget]
    exact printed_claim _ _

/-- **A run prints the texts of its sheets, and nothing else**: of all sheets that it comes to, in
order, each with its last line ended, or none if there is an output directory. -/
theorem exists_printed [Minifier] (c : Config) (r : Run) (sheets : List Path) :
    ∃ stages e, c.Course r.disk stages e ∧ stages.map Stage.path <+: sheets ∧
      (processAll c r sheets).1.printed = r.printed ++
        if c.outDir = none then stages.flatMap fun s => ended (s.text c) else [] := by
  induction sheets generalizing r with
  | nil => exact ⟨[], r.disk, .done _, List.nil_prefix, by simp [processAll]⟩
  | cons p rest ih =>
    obtain ⟨s, e, rfl, hdisk, hread, hstore, hprocess⟩ | ⟨stopped, e, hprocess, -⟩ :=
      process_cases c r p
    · obtain ⟨stages, d, hcourse, hpaths, hprinted⟩ := ih { r.advance c s with disk := e }
      refine ⟨s :: stages, d, hdisk ▸ .next hread hstore hcourse, ?_, ?_⟩
      · rw [List.map_cons]
        exact List.cons_prefix_cons.2 ⟨rfl, hpaths⟩
      · rw [processAll, hprocess]
        simp only
        rw [hprinted, printed_advance hstore]
        split <;> simp
    · refine ⟨[], r.disk, .done _, List.nil_prefix, ?_⟩
      rw [processAll, hprocess]
      simp [printed_of_error hprocess]

theorem exists_printed_ofPaths [Minifier] (c : Config) (d : Disk) (paths : List Path) :
    ∃ stages e, c.Course d stages e ∧ stages.map Stage.path <+: d.stylesheets paths ∧
      (ofPaths c d paths).1.printed =
        if c.outDir = none then stages.flatMap fun s => ended (s.text c) else [] := by
  have hnone : ∃ stages e, c.Course d stages e ∧ stages.map Stage.path <+: d.stylesheets paths ∧
      [] = if c.outDir = none then stages.flatMap fun s => ended (s.text c) else [] :=
    ⟨[], d, .done d, List.nil_prefix, by simp⟩
  unfold ofPaths
  simp only
  split
  · exact hnone
  · cases (c.validate d (d.stylesheets paths)).finish with
    | mk result log =>
      cases result with
      | error problems => exact hnone
      | ok _ =>
        have hall := exists_printed c (Run.say { disk := d } log) (d.stylesheets paths)
        simp only [start]
        generalize processAll c (Run.say { disk := d } log) (d.stylesheets paths) = processed
          at hall ⊢
        obtain ⟨last, answer⟩ := processed
        cases answer with
        | error e => exact hall
        | ok _ => exact hall

end Run

/-! ## Flags -/

/-- Whatever the flags, the action has one answer and prints one text. With details it writes a line
for every call, and without them the same lines but those of the calls for details. -/
structure Indifferent {α : Type} (action : Speaking α) (answer : α) (calls : Log)
    (printed : Text) : Prop where
  answer : ∀ k : Console, (action.run k).1 = answer
  stdout : ∀ k : Console, (action.run k).2.stdout = k.stdout ++ printed
  loud : ∀ k : Console, k.verbose = true →
    (action.run k).2.stderr = k.stderr ++ calls.map (·.render k.colour)
  quiet : ∀ k : Console, k.verbose = false →
    (action.run k).2.stderr = k.stderr ++ (calls.filter (!·.isDebug)).map (·.render k.colour)
  fewer : ∀ k k' : Console, k.colour = k'.colour → k.stderr = k'.stderr → k.verbose = false →
    k'.verbose = true → (action.run k).2.stderr.Sublist (action.run k').2.stderr

theorem Says.indifferent {α : Type} {action : Speaking α} {answer : α} {log : Log}
    {printed : Text} (h : Says action answer log printed) :
    Indifferent action answer log printed := by
  have hloud : ∀ k : Console, k.verbose = true →
      (action.run k).2.stderr = k.stderr ++ log.map (·.render k.colour) := by
    intro k hverbose
    rw [h k, ← Log.lines_verbose, ← hverbose]
    rfl
  have hquiet : ∀ k : Console, k.verbose = false →
      (action.run k).2.stderr = k.stderr ++ (log.filter (!·.isDebug)).map (·.render k.colour) := by
    intro k hverbose
    rw [h k, ← Log.lines_quiet, ← hverbose]
    rfl
  refine ⟨fun k => by rw [h k], fun k => by rw [h k]; rfl, hloud, hquiet, ?_⟩
  intro k k' hcolour hstderr hverbose hverbose'
  rw [hquiet k hverbose, hloud k' hverbose', hcolour, hstderr]
  exact List.Sublist.append_left (List.filter_sublist.map _) _

/-- The program leaves the same disk, prints the same and ends in the same way. -/
theorem Program.runWith_flags [Minifier] (s : Surroundings) (terminal terminal' : Bool)
    (a : Arguments) (verbose : Bool) (colour : ColourChoice) :
    (runWith s terminal' { a with verbose, colour }).disk = (runWith s terminal a).disk ∧
      (runWith s terminal' { a with verbose, colour }).stdout = (runWith s terminal a).stdout ∧
      (runWith s terminal' { a with verbose, colour }).exitCode =
        (runWith s terminal a).exitCode := by
  have hload : Config.load s { a with verbose, colour } = Config.load s a := rfl
  unfold runWith
  rw [hload]
  cases Config.load s a with
  | mk result log =>
    cases result with
    | error e =>
      -- Not by `rfl`: the kernel would compare the messages, which do differ, before the fields.
      simp only [and_self]
    | ok c =>
      simp only
      generalize Run.ofPaths c s.disk a.paths = ran
      obtain ⟨r, verdict⟩ := ran
      cases verdict with
      | error e => exact ⟨rfl, rfl, rfl⟩
      | ok summary => exact ⟨rfl, rfl, rfl⟩

namespace Aloud

variable {σ : Type} [StyleTree σ]

/-- Rewrites a sheet and answers with its declarations. -/
def rewrite (o : RewriteOptions) (d : Disk) (sheet : σ) :
    Speaking (List Declaration × Disk × Report) := do
  let (sheet, disk, report) ← apply o d sheet
  return (StyleTree.declarations sheet, disk, report)

theorem says_rewrite [LawfulStyleTree σ] (o : RewriteOptions) (d : Disk) (sheet : σ) :
    Says (rewrite o d sheet) (StyleTree.declarations (o.apply d sheet).sheet,
      (o.apply d sheet).disk, (o.apply d sheet).report) (o.apply d sheet).log [] := by
  intro k
  obtain ⟨hdeclarations, hrest, hconsole⟩ := run_apply o d sheet k
  exact Prod.ext (Prod.ext hdeclarations hrest) hconsole

/-- **Flags change nothing** but what is written to standard error. Whatever they are, a declaration
has one outcome, a sheet is rewritten to the same declarations with the same disk and report, and a
run ends in the same way; its error is the same text but for terminal codes. A run prints the texts
of its sheets, the other two print nothing, and what is missing without details are the lines of
details. So the program, which writes what it writes aloud, leaves the same disk, prints the same
and ends with the same code. -/
theorem flags_change_nothing [LawfulStyleTree σ] [Minifier] (o : RewriteOptions) (c : Config)
    (d : Disk) (sheet : σ) (cwd : Option Path) (source : Path) (x : Declaration)
    (paths : List Path) :
    Indifferent (process o cwd source x) (o.process cwd source x) (o.outcome cwd source x).log [] ∧
    Indifferent (rewrite o d sheet) (StyleTree.declarations (o.apply d sheet).sheet,
      (o.apply d sheet).disk, (o.apply d sheet).report) (o.apply d sheet).log [] ∧
    Indifferent (ofPaths c d paths)
      (ledgerOf (Run.ofPaths c d paths).1, (Run.ofPaths c d paths).2)
      (Run.ofPaths c d paths).1.log (Run.ofPaths c d paths).1.printed ∧
    (∃ stages e, c.Course d stages e ∧ stages.map Stage.path <+: d.stylesheets paths ∧
      (Run.ofPaths c d paths).1.printed =
        if c.outDir = none then stages.flatMap fun s => Run.ended (s.text c) else []) ∧
    (∀ e : RunError, ∃ spans : Spans, ∀ colour, e.message colour = spans.render colour) ∧
    ∀ (s : Surroundings) (terminal terminal' : Bool) (a : Arguments) (verbose : Bool)
      (colour : ColourChoice), Program.runWith s terminal a = runWith s terminal a ∧
        (Program.runWith s terminal' { a with verbose, colour }).disk =
          (Program.runWith s terminal a).disk ∧
        (Program.runWith s terminal' { a with verbose, colour }).stdout =
          (Program.runWith s terminal a).stdout ∧
        (Program.runWith s terminal' { a with verbose, colour }).exitCode =
          (Program.runWith s terminal a).exitCode := by
  refine ⟨(says_process o cwd source x).indifferent, (says_rewrite o d sheet).indifferent,
    (says_ofPaths c d paths).indifferent, Run.exists_printed_ofPaths c d paths,
    fun e => ⟨e.spans, fun colour => e.message_eq colour⟩, ?_⟩
  intro s terminal terminal' a verbose colour
  exact ⟨runWith_eq s terminal a, Program.runWith_flags s terminal terminal' a verbose colour⟩

/-- A sheet with a data url is rewritten with a line of detail, and without it in silence. -/
theorem flags_change_nothing_data_url :
    let o : RewriteOptions := { urlPrefix := some ['p'], dumpDir := some (.ofString "/d") }
    let d : Disk := ⟨.empty, ⟨[], 0⟩, {}⟩
    let sheet : DeclarationList := ⟨.ofString "/s.css", [⟨['b'], "url(data:,)".toList⟩]⟩
    ((rewrite o d sheet).run { verbose := true, colour := false }).2.stderr =
        ["\x1b[K[skip] DataUri url: data:,\n"] ∧
      ((rewrite o d sheet).run { verbose := false, colour := false }).2.stderr = [] ∧
      ((rewrite o d sheet).run { verbose := true, colour := false }).1 =
        ((rewrite o d sheet).run { verbose := false, colour := true }).1 := by
  intro o d sheet
  obtain ⟨-, hsheet, -⟩ := flags_change_nothing o {} d sheet none (.ofString "/s.css")
    ⟨['b'], "url(data:,)".toList⟩ []
  have hlog : (o.apply d sheet).log = [.debug "skip" "DataUri url: data:,"] := by
    decide +kernel
  rw [hlog] at hsheet
  refine ⟨(hsheet.loud _ rfl).trans ?_, hsheet.quiet _ rfl, ?_⟩
  · decide +kernel
  · rw [hsheet.answer, hsheet.answer]

end Aloud

end StyleAssets
