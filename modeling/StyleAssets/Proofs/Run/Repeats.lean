import Mathlib.Data.List.Dedup
import StyleAssets.Proofs.Run.Course

/-!
# Texts written over others

A run warns of every text that it writes over another one, and nothing else that it says reads like
such a warning. So there are as many of them as there are sheets beyond the first under each name.

* `LogEntry.isRepeat` — the warning that a file is written more than once.
* `Log.Quiet` — a log without such warnings; `Stage.quiet_log` says that all that is said of a
  single sheet is one.
* `Run.Claims` — the names that a run has noted.
* `Run.claims_foldl_advance` — **main result**: warnings and names add up to the sheets.
-/

namespace StyleAssets

/-- Is it the warning that a file is written more than once? -/
def LogEntry.isRepeat : LogEntry → Bool
  | .tagged tag message _ =>
    tag == "warning" && "written more than once, last one wins".toList.isSuffixOf message.toList
  | .bare _ => false

/-- A log without warnings of files written more than once. -/
def Log.Quiet (log : Log) : Prop := ∀ entry ∈ log, entry.isRepeat = false

/-! ## Messages by their ends -/

namespace LogEntry

theorem isRepeat_of_tag {tag : String} (h : tag ≠ "warning") (message : String) (debug : Bool) :
    (LogEntry.tagged tag message debug).isRepeat = false := by
  simp [isRepeat, h]

theorem isRepeat_error (message : String) : (LogEntry.error message).isRepeat = false :=
  isRepeat_of_tag (by decide) message false

/-- A message that ends in another character is no such warning. -/
theorem isRepeat_of_getLast? {message : String} {last : Char}
    (hlast : message.toList.getLast? = some last) (hne : last ≠ 's') :
    (LogEntry.warning message).isRepeat = false := by
  rw [Bool.eq_false_iff]
  intro h
  simp only [warning, log, isRepeat, Bool.and_eq_true, List.isSuffixOf_iff_suffix] at h
  obtain ⟨front, hfront⟩ := h.2
  rw [← hfront, List.getLast?_append] at hlast
  exact hne (Option.some.inj hlast).symm

theorem getLast?_append {front back : String} (last : Char)
    (h : back.toList.getLast? = some last) : (front ++ back).toList.getLast? = some last := by
  rw [String.toList_append, List.getLast?_append, h]
  rfl

theorem isRepeat_append {front back : String} (last : Char)
    (hlast : back.toList.getLast? = some last) (hne : last ≠ 's') :
    (LogEntry.warning (front ++ back)).isRepeat = false :=
  isRepeat_of_getLast? (getLast?_append last hlast) hne

theorem isRepeat_repeated (target : Path) :
    (LogEntry.warning s!"`{target.display}` written more than once, last one wins").isRepeat =
      true := by
  simp only [LogEntry.warning, LogEntry.log, isRepeat, Bool.and_eq_true,
    List.isSuffixOf_iff_suffix]
  refine ⟨rfl, ?_⟩
  rw [String.toList_append]
  exact List.IsSuffix.trans (by decide) (List.suffix_append _ _)

end LogEntry

/-! ## What is said of a sheet -/

namespace Log.Quiet

variable {α : Type} {log log' : Log} {entry : LogEntry}

theorem nil : Quiet [] := nofun

theorem cons (h : entry.isRepeat = false) (hlog : log.Quiet) : Quiet (entry :: log) :=
  List.forall_mem_cons.2 ⟨h, hlog⟩

theorem singleton (h : entry.isRepeat = false) : Quiet [entry] := cons h nil

theorem map {f : α → LogEntry} (h : ∀ x, (f x).isRepeat = false) (all : List α) :
    Quiet (all.map f) :=
  List.forall_mem_map.2 fun x _ => h x

theorem append (h : log.Quiet) (h' : log'.Quiet) : Quiet (log ++ log') := by
  intro entry hentry
  obtain hentry | hentry := List.mem_append.1 hentry
  · exact h entry hentry
  · exact h' entry hentry

theorem countP (h : log.Quiet) : log.countP LogEntry.isRepeat = 0 :=
  List.countP_eq_zero.2 fun entry hentry => Bool.eq_false_iff.1 (h entry hentry)

end Log.Quiet

namespace CopyJob

theorem quiet_clashWarningsAfter (kept jobs : List CopyJob) :
    Log.Quiet (clashWarningsAfter kept jobs) := by
  induction jobs generalizing kept with
  | nil => exact .nil
  | cons job jobs ih =>
    unfold clashWarningsAfter
    split
    · refine .append ?_ (ih kept)
      split
      · exact .singleton (LogEntry.isRepeat_append 't' (by decide) (by decide))
      · exact .nil
    · exact ih _

end CopyJob

theorem CopyFailure.quiet_log (policy : MissingAssetPolicy) (sheet : Path)
    (failures : List CopyFailure) : Log.Quiet (CopyFailure.log policy sheet failures) := by
  cases policy with
  | error =>
    exact .append (.map (fun f => LogEntry.isRepeat_error _) failures)
      (.singleton (LogEntry.isRepeat_error _))
  | warn =>
    exact .map (fun f => LogEntry.isRepeat_append ')' (by decide) (by decide)) failures

theorem Outcome.quiet_log (outcome : Outcome) : Log.Quiet outcome.log := by
  cases outcome with
  | untouched => exact .nil
  | skip reason => exact .singleton (LogEntry.isRepeat_of_tag (by decide) _ _)
  | rewrite raw value job => exact .singleton (LogEntry.isRepeat_of_tag (by decide) _ _)

namespace Stage

theorem quiet_warnings (sheet : Stylesheet) : Log.Quiet sheet.warnings := by
  intro entry hentry
  rw [List.eq_of_mem_replicate hentry]
  exact LogEntry.isRepeat_append 'd' (by decide) (by decide)

theorem quiet_applied (c : Config) (s : Stage) : Log.Quiet (s.applied c).log := by
  unfold applied RewriteOptions.apply
  simp only
  split
  · exact .singleton (LogEntry.isRepeat_append '\x60' (by decide) (by decide))
  · unfold Settings.apply
    simp only
    have hplanning : ∀ outcomes : List Outcome, Log.Quiet (outcomes.flatMap Outcome.log) := by
      intro outcomes entry hentry
      obtain ⟨outcome, -, hmem⟩ := List.mem_flatMap.1 hentry
      exact outcome.quiet_log entry hmem
    split
    · exact hplanning _
    · have hsaid : ∀ (outcomes : List Outcome) jobs failures, Log.Quiet (
          outcomes.flatMap Outcome.log ++ CopyJob.clashWarningsAfter [] jobs ++
          if failures.isEmpty then [] else
            CopyFailure.log c.rewriteOptions.missing (StyleTree.sourceFile s.sheet) failures) := by
        intro outcomes jobs failures
        refine ((hplanning outcomes).append (CopyJob.quiet_clashWarningsAfter [] jobs)).append ?_
        split
        · exact .nil
        · exact CopyFailure.quiet_log _ _ _
      split
      · exact hsaid _ _ _
      · exact (hsaid _ _ _).append (.singleton (LogEntry.isRepeat_of_tag (by decide) _ _))

/-- **Nothing that is said of a single sheet** reads like a warning of a file written twice. -/
theorem quiet_log [Minifier] (c : Config) (s : Stage) : Log.Quiet (s.log c) := by
  refine (((quiet_warnings _).append (quiet_applied c s)).append ?_).append ?_
  · unfold Run.progressLog
    split
    · exact .singleton (LogEntry.isRepeat_of_tag (by decide) _ _)
    · exact .singleton (LogEntry.isRepeat_of_tag (by decide) _ _)
  · unfold minifyIf
    split
    · split
      · exact .nil
      · exact .singleton (by decide)
    · exact .nil

end Stage

theorem Diagnostics.quiet_log (ds : Diagnostics) : Log.Quiet ds.log := by
  intro entry hentry
  obtain ⟨x, hx, rfl⟩ := List.mem_map.1 hentry
  have hmissing : x.problem = .missing := by
    have hwarning := (List.mem_filter.1 hx).2
    simpa [Diagnostic.isFatal] using hwarning
  have hmessage : x.message.toList.getLast? = some 'l' := by
    unfold Diagnostic.message
    rw [hmissing]
    exact LogEntry.getLast?_append 'l' (by decide)
  exact LogEntry.isRepeat_append 'l' hmessage (by decide)

theorem RunSummary.quiet_log (t : RunSummary) : Log.Quiet (t.log ++ t.rejectedLog) := by
  refine .append ?_ (.map (fun p => LogEntry.isRepeat_error _) t.rejected)
  unfold RunSummary.log
  refine .cons (LogEntry.isRepeat_of_tag (by decide) _ _) ?_
  split
  · exact .nil
  · exact .singleton (LogEntry.isRepeat_append 'y' (by decide) (by decide))

/-! ## The names that a run has noted -/

namespace Run

variable {c : Config} {r : Run} {directory : Path} {names : List Name} {name : Name}

/-- The run has noted the files of these names in the output directory, and no others. -/
structure Claims (directory : Path) (names : List Name) (r : Run) : Prop where
  written : r.written = names.map fun name => directory.join ⟨name⟩
  nodup : names.Nodup
  step : ∀ name ∈ names, Path.IsStep (.normal name)

/-- Different names in a directory are different files. -/
theorem same_join_iff {name' : Name} (h : Path.IsStep (.normal name))
    (h' : Path.IsStep (.normal name')) :
    (directory.join ⟨name⟩).Same (directory.join ⟨name'⟩) ↔ name = name' := by
  rw [Path.Same, Path.components_join_name directory h, Path.components_join_name directory h']
  simp

theorem any_same_iff (h : Claims directory names r) (hname : Path.IsStep (.normal name)) :
    (r.written.any fun other => decide (other.Same (directory.join ⟨name⟩))) = true ↔
      name ∈ names := by
  rw [h.written, List.any_map, List.any_eq_true]
  constructor
  · rintro ⟨other, hother, hsame⟩
    rwa [← (same_join_iff (h.step other hother) hname).1 (of_decide_eq_true hsame)]
  · intro hmem
    exact ⟨name, hmem, decide_eq_true ((same_join_iff hname hname).2 rfl)⟩

/-- A text with a new name is noted, and one with a name that is there is warned of. -/
theorem Claims.claim (h : Claims directory names r) (hname : Path.IsStep (.normal name)) :
    Claims directory (names.insert name) (r.claim (directory.join ⟨name⟩)) ∧
      (r.claim (directory.join ⟨name⟩)).log.countP LogEntry.isRepeat + (names.insert name).length =
        r.log.countP LogEntry.isRepeat + names.length + 1 := by
  have hany := any_same_iff h hname
  unfold Run.claim
  by_cases hmem : name ∈ names
  · rw [if_pos (hany.2 hmem), List.insert_of_mem hmem]
    refine ⟨⟨h.written, h.nodup, h.step⟩, ?_⟩
    simp only [say, List.countP_append, List.countP_singleton, LogEntry.isRepeat_repeated]
    simp only [if_true]
    omega
  · rw [if_neg (mt hany.1 hmem), List.insert_of_not_mem hmem]
    refine ⟨⟨?_, List.nodup_cons.2 ⟨hmem, h.nodup⟩, List.forall_mem_cons.2 ⟨hname, h.step⟩⟩, ?_⟩
    · show directory.join ⟨name⟩ :: r.written = _
      rw [h.written, List.map_cons]
    · rw [List.length_cons, Nat.add_assoc]

variable [Minifier]

/-- One more sheet. -/
theorem Claims.advance (h : Claims directory names r) (hdirectory : c.outDir = some directory)
    {s : Stage} (hname : s.path.fileName? = some name) :
    Claims directory (names.insert name) (r.advance c s) ∧
      (r.advance c s).log.countP LogEntry.isRepeat + (names.insert name).length =
        r.log.countP LogEntry.isRepeat + names.length + 1 := by
  have hsaid : Claims directory names (r.say (s.log c)) := ⟨h.written, h.nodup, h.step⟩
  obtain ⟨hclaims, hcount⟩ := hsaid.claim (Path.isStep_of_fileName? hname)
  have hadvance : r.advance c s = { (r.say (s.log c)).claim (directory.join ⟨name⟩) with
      summary := r.summary.add (s.report c) } := by
    rw [Run.advance, handOn, Config.output?, hdirectory, hname]
  rw [hadvance]
  refine ⟨⟨hclaims.written, hclaims.nodup, hclaims.step⟩, ?_⟩
  simp only [say, List.countP_append, (s.quiet_log c).countP, Nat.add_zero] at hcount
  exact hcount

/-- **Warnings and names add up to the sheets.** -/
theorem claims_foldl_advance (h : Claims directory names r) (hdirectory : c.outDir = some directory)
    (stages : List Stage) (hnames : ∀ s ∈ stages, ∃ name, s.path.fileName? = some name) :
    ∃ all, Claims directory all (stages.foldl (advance c) r) ∧
      (∀ name, name ∈ all ↔ name ∈ names ∨ ∃ s ∈ stages, s.path.fileName? = some name) ∧
      (stages.foldl (advance c) r).log.countP LogEntry.isRepeat + all.length =
        r.log.countP LogEntry.isRepeat + names.length + stages.length := by
  induction stages generalizing r names with
  | nil => exact ⟨names, h, by simp, rfl⟩
  | cons s stages ih =>
    obtain ⟨⟨name, hname⟩, hrest⟩ := List.forall_mem_cons.1 hnames
    obtain ⟨hclaims, hcount⟩ := h.advance hdirectory hname
    obtain ⟨all, hall, hmem, htotal⟩ := ih hclaims hrest
    refine ⟨all, hall, fun other => ?_, ?_⟩
    · rw [hmem, List.mem_insert_iff, List.exists_mem_cons_iff, hname, Option.some.injEq]
      tauto
    · rw [List.foldl_cons, htotal, List.length_cons]
      omega

/-- There are as many warnings as sheets beyond the first under each name. -/
theorem repeats_of_claims (r : Run) (hwritten : r.written = [])
    (hdirectory : c.outDir = some directory) (stages : List Stage)
    (hnames : ∀ s ∈ stages, ∃ name, s.path.fileName? = some name) :
    (stages.foldl (advance c) r).log.countP LogEntry.isRepeat +
        (stages.filterMap fun s => s.path.fileName?).dedup.length =
      r.log.countP LogEntry.isRepeat + stages.length := by
  have hnone : Claims directory [] r := ⟨hwritten, List.nodup_nil, nofun⟩
  obtain ⟨all, hall, hmem, htotal⟩ := claims_foldl_advance hnone hdirectory stages hnames
  have hperm : all.Perm (stages.filterMap fun s => s.path.fileName?).dedup := by
    refine (List.perm_ext_iff_of_nodup hall.nodup (List.nodup_dedup _)).2 fun name => ?_
    rw [hmem, List.mem_dedup, List.mem_filterMap]
    simp
  rw [← hperm.length_eq, htotal]
  simp

end Run

end StyleAssets
