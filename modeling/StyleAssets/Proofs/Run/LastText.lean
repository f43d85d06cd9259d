import StyleAssets.Proofs.FileTree.Made
import StyleAssets.Proofs.Run.Repeats
import StyleAssets.Proofs.Run.Rerun

/-!
# What a run leaves behind

A run that has come to all of its sheets has counted them, and their texts lie in the output
directory. Of the sheets with one file name the last one wins.

* `Config.KeepsClear` — no link stands in the output directory and no copy goes there.
* `Config.Course.last_text` — the last text under a name is what its file holds in the end.
* `Run.Exact` — the verdict, the totals, the texts and the warnings of a run.
* `Run.ofPaths_exact` — **main result**: so ends every run that has passed its check and could read
  and write all that it came to.
-/

namespace StyleAssets

namespace Config

variable {c : Config} {d e : Disk} {directory p : Path} {css : Text} {stages : List Stage}
  {position : Position} {name : Name}

/-! ## The disks of a course -/

theorem Course.grows [Minifier] (h : c.Course d stages e) : d.Grows e := by
  induction h with
  | done d => exact .refl d
  | next _ hstore _ ih => exact ((c.filled_apply _ _).grows.trans (grows_store hstore)).trans ih

/-- Storing a text makes no links. -/
theorem link_of_store (h : c.store d p css = some e) {place : Location} {target : Path}
    (hlink : e.tree.get? place = some (.link target)) :
    d.tree.get? place = some (.link target) := by
  obtain ⟨-, rfl⟩ | ⟨directory, target', made, filled, -, -, hmade, hwritable, rfl⟩ :=
    store_eq_some h
  · exact hlink
  · have hfilled := (Disk.Filled.refl made).put
      (Disk.receives_refilled hwritable (Utf8.encode css))
    exact (Disk.furnishes_of_makeDirectories hmade).link (hfilled.link hlink)

/-- Nor does a whole course. -/
theorem Course.link [Minifier] (h : c.Course d stages e) {place : Location} {target : Path}
    (hlink : e.tree.get? place = some (.link target)) :
    d.tree.get? place = some (.link target) := by
  induction h with
  | done d => exact hlink
  | next _ hstore _ ih => exact (c.filled_apply _ _).link (link_of_store hstore (ih hlink))

theorem Course.split [Minifier] {before after : List Stage} {s : Stage}
    (h : c.Course d (before ++ s :: after) e) :
    ∃ f, c.store (s.applied c).disk s.path (s.text c) = some f ∧ c.Course f after e := by
  induction before generalizing d with
  | nil =>
    cases h with
    | next _ hstore hrest => exact ⟨_, hstore, hrest⟩
  | cons first before ih =>
    cases h with
    | next _ _ hrest => exact ih hrest

/-- Every sheet of a course has been read and stored. -/
theorem Course.of_mem [Minifier] (h : c.Course d stages e) {s : Stage} (hs : s ∈ stages) :
    Stylesheet.read s.disk s.path = .ok s.sheet ∧
      ∃ f, c.store (s.applied c).disk s.path (s.text c) = some f := by
  induction h with
  | done => cases hs
  | next hread hstore _ ih =>
    rcases List.mem_cons.1 hs with rfl | hs
    · exact ⟨hread, _, hstore⟩
    · exact ih hs

/-! ## Texts in the output directory -/

/-- No link stands in the output directory, and no copy goes into it. -/
structure KeepsClear (c : Config) (d : Disk) (stages : List Stage) (position : Position) :
    Prop where
  link : ∀ name target, d.tree.get? (position.place ++ [name]) ≠ some (.link target)
  copy : ∀ s ∈ stages, ∀ name, position.place ++ [name] ∉ c.copyPlaces s.disk s.path

/-- The directory that a text goes to is made, and led to from then on. -/
theorem leadsTo_of_store (h : c.store d p css = some e) (hdirectory : c.outDir = some directory) :
    ∃ made name place, d.Furnishes made ∧ p.fileName? = some name ∧
      (∃ position, made.LeadsTo directory position) ∧
      made.writable (directory.join ⟨name⟩) = .ok place ∧
      e = made.put place (.file (made.refilled place (Utf8.encode css))) := by
  obtain ⟨hnone, -⟩ | ⟨other, target, made, place, hother, htarget, hmade, hwritable, rfl⟩ :=
    store_eq_some h
  · cases hdirectory.symm.trans hnone
  · obtain rfl : directory = other := Option.some.inj (hdirectory.symm.trans hother)
    obtain ⟨name, hname, rfl⟩ := exists_name_of_output? hdirectory htarget
    exact ⟨made, name, place, Disk.furnishes_of_makeDirectories hmade, hname,
      Disk.exists_leadsTo_of_makeDirectories hmade (Path.isStep_of_fileName? hname)
        (Disk.writable_eq_ok.1 hwritable).1, hwritable, rfl⟩

theorem Course.exists_leadsTo [Minifier] (h : c.Course d stages e) (hstages : stages ≠ [])
    (hdirectory : c.outDir = some directory) : ∃ position, e.LeadsTo directory position := by
  cases h with
  | done => exact absurd rfl hstages
  | next _ hstore hrest =>
    obtain ⟨made, name, place, -, -, ⟨position, hleads⟩, hwritable, rfl⟩ :=
      leadsTo_of_store hstore hdirectory
    have hgrows := (Disk.grows_put_file (Disk.receives_refilled hwritable _)).trans hrest.grows
    exact ⟨position, hleads.grows hgrows⟩

/-- With an output directory, only sheets with a file name are come to. -/
theorem Course.exists_fileName [Minifier] (h : c.Course d stages e)
    (hdirectory : c.outDir = some directory) {s : Stage} (hs : s ∈ stages) :
    ∃ name, s.path.fileName? = some name := by
  obtain ⟨f, hstore⟩ := (h.of_mem hs).2
  obtain ⟨-, name, -, -, hname, -⟩ := leadsTo_of_store hstore hdirectory
  exact ⟨name, hname⟩

/-- **A text goes to its name in the output directory**, seen from a later disk on which no link
stands there. -/
theorem place_of_store (h : c.store d p css = some e) (hdirectory : c.outDir = some directory)
    {later : Disk} (hgrows : e.Grows later) (hleads : later.LeadsTo directory position)
    (hlink : ∀ name target, later.tree.get? (position.place ++ [name]) ≠ some (.link target)) :
    ∃ made name, d.Furnishes made ∧ p.fileName? = some name ∧
      made.writable (directory.join ⟨name⟩) = .ok (position.place ++ [name]) ∧
      e = made.put (position.place ++ [name])
        (.file (made.refilled (position.place ++ [name]) (Utf8.encode css))) := by
  obtain ⟨made, name, place, hfurnishes, hname, ⟨inner, hinner⟩, hwritable, rfl⟩ :=
    leadsTo_of_store h hdirectory
  have hlater := (Disk.grows_put_file (Disk.receives_refilled hwritable _)).trans hgrows
  obtain rfl := hleads.unique (hinner.grows hlater)
  obtain ⟨-, rfl | ⟨target, htarget⟩⟩ :=
    Disk.aim_join hinner (Path.isStep_of_fileName? hname) (Disk.writable_eq_ok.1 hwritable).1
  · exact ⟨made, name, hfurnishes, hname, hwritable, rfl⟩
  · obtain ⟨entry, hentry, hshape⟩ := hlater.tree _ _ htarget
    rw [Entry.eq_link_of_shape hshape] at hentry
    exact absurd hentry (hlink name target)

/-- A text stays as long as no other sheet has its name. -/
theorem Course.keeps [Minifier] (h : c.Course d stages e) (hdirectory : c.outDir = some directory)
    (hleads : e.LeadsTo directory position)
    (hlink : ∀ name target, e.tree.get? (position.place ++ [name]) ≠ some (.link target))
    (hcopy : ∀ s ∈ stages, position.place ++ [name] ∉ c.copyPlaces s.disk s.path)
    (hother : ∀ s ∈ stages, s.path.fileName? ≠ some name) {file : File}
    (hget : d.tree.get? (position.place ++ [name]) = some (.file file)) :
    e.tree.get? (position.place ++ [name]) = some (.file file) := by
  induction h with
  | done d => exact hget
  | next hread hstore hrest ih =>
    obtain ⟨hcopy, hcopies⟩ := List.forall_mem_cons.1 hcopy
    obtain ⟨hne, hothers⟩ := List.forall_mem_cons.1 hother
    refine ih hleads hlink hcopies hothers ?_
    obtain ⟨made, name', hfurnishes, hname, hwritable, rfl⟩ :=
      place_of_store hstore hdirectory hrest.grows hleads hlink
    rw [Disk.get?_put_of_ne]
    · exact hfurnishes.keeps ((get?_apply hread hcopy).trans hget)
    · intro heq
      obtain rfl : name = name' := by simpa using heq
      exact hne hname

/-- **The last text under a name is what its file holds in the end.** -/
theorem Course.last_text [Minifier] {before after : List Stage} {s : Stage}
    (h : c.Course d (before ++ s :: after) e) (hdirectory : c.outDir = some directory)
    (hleads : e.LeadsTo directory position)
    (hclear : c.KeepsClear d (before ++ s :: after) position)
    (hname : s.path.fileName? = some name) (hlast : ∀ t ∈ after, t.path.fileName? ≠ some name) :
    e.contentOf (directory.join ⟨name⟩) = .ok (Utf8.encode (s.text c)) := by
  have hlink : ∀ name target, e.tree.get? (position.place ++ [name]) ≠ some (.link target) :=
    fun name target hlink => hclear.link name target (h.link hlink)
  obtain ⟨f, hstore, hrest⟩ := h.split
  obtain ⟨made, name', hfurnishes, hname', hwritable, rfl⟩ :=
    place_of_store hstore hdirectory hrest.grows hleads hlink
  obtain rfl : name = name' := Option.some.inj (hname.symm.trans hname')
  have hreceives := Disk.receives_refilled hwritable (Utf8.encode (s.text c))
  have hput := Disk.grows_put_file hreceives
  have hkept := hrest.keeps hdirectory hleads hlink
    (fun t ht => hclear.copy t (List.mem_append_right _ (List.mem_cons_of_mem _ ht)) name) hlast
    (Disk.get?_put_self hreceives.takes _)
  rw [Disk.contentOf_of_aim (hput.trans hrest.grows) (Disk.writable_eq_ok.1 hwritable).1 hkept,
    Disk.refilled_eq]

end Config

namespace Run

variable {c : Config} {d : Disk} {paths : List Path} {r : Run}
  {verdict : Except RunError RunSummary}

/-! ## The whole run -/

/-- A text with its last line ended. -/
def ended (css : Text) : Text := css ++ if css.getLast? = some '\n' then [] else ['\n']

/-- Without an output directory all texts are printed, in order. -/
theorem printed_foldl_advance [Minifier] (h : c.outDir = none) (r : Run) (stages : List Stage) :
    (stages.foldl (advance c) r).printed =
      r.printed ++ stages.flatMap fun s => ended (s.text c) := by
  induction stages generalizing r with
  | nil => exact (List.append_nil _).symm
  | cons s stages ih =>
    have hprinted : (r.advance c s).printed = r.printed ++ ended (s.text c) := by
      unfold advance handOn Config.output?
      rw [h]
      exact List.append_assoc _ _ _
    rw [List.foldl_cons, ih, hprinted, List.flatMap_cons, List.append_assoc]

/-- What a run that has come to all of its sheets leaves behind, says and answers. All of them have
been read, rewritten and stored in order; one that was skipped or rejected is handed on as it was
read. The run fails exactly if a sheet has been rejected, and none is if failed copies are only
warned of. There is a warning for every sheet beyond the first under its name, and the file of each
name holds the last text. -/
structure Exact [Minifier] (c : Config) (d : Disk) (paths : List Path) (stages : List Stage)
    (r : Run) (verdict : Except RunError RunSummary) : Prop where
  course : c.Course d stages r.disk
  sheets : stages.map Stage.path = d.stylesheets paths
  fails : (∃ e, verdict = .error e) ↔ ∃ s ∈ stages, (s.report c).status = .rejected
  warned : c.missing = .warn → ∀ s ∈ stages, (s.report c).status ≠ .rejected
  kept : ∀ s ∈ stages, ∃ text, s.disk.readText s.path = .ok text ∧
    ((s.report c).status ≠ .complete → s.text c = (minifyIf c.minify text).1)
  summary : r.summary = totals c stages
  answer : ∀ t, verdict = .ok t → t = totals c stages
  printed : c.outDir = none → r.printed = stages.flatMap fun s => ended (s.text c)
  repeats : c.outDir ≠ none →
    r.log.countP LogEntry.isRepeat +
      ((d.stylesheets paths).filterMap Path.fileName?).dedup.length = (d.stylesheets paths).length
  texts : ∀ directory, c.outDir = some directory →
    ∃ position, r.disk.LeadsTo directory position ∧
      (c.KeepsClear d stages position → ∀ before s after name, stages = before ++ s :: after →
        s.path.fileName? = some name → (∀ t ∈ after, t.path.fileName? ≠ some name) →
        r.disk.contentOf (directory.join ⟨name⟩) = .ok (Utf8.encode (s.text c)))

/-- The verdict on the totals of some sheets. -/
theorem verdict_totals (c : Config) (stages : List Stage) :
    ((∃ e, (totals c stages).verdict = .error e) ↔
      ∃ s ∈ stages, (s.report c).status = .rejected) ∧
    ∀ t, (totals c stages).verdict = .ok t → t = totals c stages := by
  have hrejected : (totals c stages).rejected = [] ↔
      ¬∃ s ∈ stages, (s.report c).status = .rejected := by
    simp [totals, Report.isFailed]
  unfold RunSummary.verdict
  split
  · rename_i hnone
    constructor
    · exact iff_of_false (by simp) (hrejected.1 (List.isEmpty_iff.1 hnone))
    · intro t ht
      exact (Except.ok.inj ht).symm
  · rename_i hsome
    constructor
    · refine iff_of_true ⟨_, rfl⟩ (not_not.1 fun hnone => hsome ?_)
      exact List.isEmpty_iff.2 (hrejected.2 hnone)
    · intro t ht
      cases ht

/-- There are as many warnings as sheets beyond the first under each name. -/
theorem repeats_of_course [Minifier] {stages : List Stage} {e : Disk}
    (hcourse : c.Course d stages e) (hpaths : stages.map Stage.path = d.stylesheets paths)
    (hsome : c.outDir ≠ none) :
    let log := (c.validate d (d.stylesheets paths)).log
    (stages.foldl (advance c) { disk := d, log }).log.countP LogEntry.isRepeat +
      ((d.stylesheets paths).filterMap Path.fileName?).dedup.length =
        (d.stylesheets paths).length := by
  intro log
  obtain ⟨directory, hdirectory⟩ := Option.ne_none_iff_exists'.1 hsome
  have hcount := repeats_of_claims { disk := d, log } rfl hdirectory stages
    fun s hs => hcourse.exists_fileName hdirectory hs
  rw [(Diagnostics.quiet_log _).countP, Nat.zero_add] at hcount
  rw [← hpaths, List.length_map, List.filterMap_map]
  exact hcount

/-- **The verdict and the totals of a run are exact.** A run that finds sheets, passes its check and
meets no sheet that cannot be read and no text that cannot be written comes to all of its sheets, in
order; it fails exactly if one of them was rejected, it counts what became of them, and their last
texts lie in the output directory. -/
theorem ofPaths_exact [Minifier] (h : ofPaths c d paths = (r, verdict))
    (hsheets : d.stylesheets paths ≠ [])
    (hvalid : (c.validate d (d.stylesheets paths)).finish.1 = .ok ())
    (hfiles : ∀ e, verdict = .error e → e.stops = false) :
    ∃ stages, Exact c d paths stages r verdict := by
  obtain ⟨stages, e, hcourse, hpaths, rfl, rfl⟩ := ofPaths_of_not_stops h hsheets hvalid hfiles
  obtain ⟨hfails, hanswer⟩ := verdict_totals c stages
  have hstages : stages ≠ [] := by
    rintro rfl
    exact hsheets hpaths.symm
  refine ⟨stages, hcourse, hpaths, hfails, fun hwarn s _ => s.status_of_warn hwarn,
    fun s hs => ?_, ?_, hanswer, fun hnone => ?_, fun hsome => ?_, fun directory hdirectory => ?_⟩
  · obtain ⟨text, htext, -⟩ := Stage.exists_text (hcourse.of_mem hs).1
    exact ⟨text, htext, Stage.text_of_not_complete (hcourse.of_mem hs).1 htext⟩
  · exact summary_course c _ stages rfl
  · exact printed_foldl_advance hnone _ stages
  · simp only [say, List.countP_append, ((totals c stages).quiet_log).countP, Nat.add_zero]
    exact repeats_of_course hcourse hpaths hsome
  · obtain ⟨position, hleads⟩ := hcourse.exists_leadsTo hstages hdirectory
    refine ⟨position, hleads, ?_⟩
    rintro hclear before s after name rfl hname hlast
    exact hcourse.last_text hdirectory hleads hclear hname hlast

/-! ## Two sheets of one name -/

/-- The sheets `/s/a.css` and `/t/a.css`. Only the second one has its asset. -/
def twins : Disk where
  tree.entries := [([[0x73]], .directory),
    ([[0x73], Utf8.encode "a.css".toList], .file { content := Utf8.encode siteSheet.text }),
    ([[0x74]], .directory),
    ([[0x74], Utf8.encode "a.css".toList], .file { content := Utf8.encode siteSheet.text }),
    ([[0x74], Utf8.encode "i.c".toList], .file { content := [1] }), ([[0x64]], .directory)]
  cwd := ⟨[], 0⟩

/-- Copies go to `/d` and texts to `/o`. A sheet is left alone if a copy fails. -/
def strict : Config where
  urlPrefix := some "/p".toList
  dumpDir := some (.ofString "/d")
  missing := .error
  outDir := some (.ofString "/o")

/-- The second sheet. -/
def secondSheet : Stylesheet := { siteSheet with sourceFile := .ofString "/t/a.css" }

/-- After the first sheet, which goes to `/o` as it was read. -/
def firstStored : Disk :=
  (twins.put [[0x6F]] .directory).put [[0x6F], Utf8.encode "a.css".toList]
    (.file { content := Utf8.encode siteSheet.text })

/-- After the copy for the second sheet. -/
def secondDumped : Disk :=
  firstStored.put [[0x64], Utf8.encode "a_dumped_i.c".toList] (.file { content := [1] })

/-- After the second sheet. -/
def secondStored : Disk :=
  secondDumped.put [[0x6F], Utf8.encode "a.css".toList] (.file { content := Utf8.encode siteText })

theorem apply_first :
    (strict.rewriteOptions.apply twins siteSheet).disk = twins ∧
    (strict.rewriteOptions.apply twins siteSheet).report =
      { sourceFile := .ofString "/s/a.css", status := .rejected,
        failures := [⟨siteCopy, .notFound⟩] } ∧
    textOf strict (strict.rewriteOptions.apply twins siteSheet) = siteSheet.text := by
  have hsettings : strict.rewriteOptions.settings (StyleTree.sourceFile siteSheet) =
      .ok ⟨"/p".toList, .ofString "/d"⟩ := rfl
  have hplan : Settings.plan ⟨"/p".toList, .ofString "/d"⟩ twins.cwdPath? siteSheet =
      (siteSheet, [.rewrite "i.c".toList "url(\"/p/a_dumped_i.c\")".toList siteCopy]) := by
    decide +kernel
  have hrun : CopyJob.runAll twins [siteCopy] = (twins, ⟨0, [⟨siteCopy, .notFound⟩]⟩, []) := by cbv
  rw [RewriteOptions.apply, hsettings]
  simp only [Settings.apply, hplan, List.filterMap_cons, Outcome.job?, List.filterMap_nil, hrun]
  exact ⟨rfl, by decide +kernel, by decide +kernel⟩

theorem apply_second :
    (strict.rewriteOptions.apply firstStored secondSheet).disk = secondDumped ∧
    (strict.rewriteOptions.apply firstStored secondSheet).report =
      { sourceFile := .ofString "/t/a.css", rewritten := 1, copied := 1 } ∧
    textOf strict (strict.rewriteOptions.apply firstStored secondSheet) = siteText := by
  have hsettings : strict.rewriteOptions.settings (StyleTree.sourceFile secondSheet) =
      .ok ⟨"/p".toList, .ofString "/d"⟩ := rfl
  have hplan : Settings.plan ⟨"/p".toList, .ofString "/d"⟩ firstStored.cwdPath? secondSheet =
      (secondSheet, [.rewrite "i.c".toList "url(\"/p/a_dumped_i.c\")".toList
        ⟨.ofString "/t/i.c", .ofString "/d/a_dumped_i.c"⟩]) := by
    decide +kernel
  have hrun : CopyJob.runAll firstStored [⟨.ofString "/t/i.c", .ofString "/d/a_dumped_i.c"⟩] =
      (secondDumped, ⟨1, []⟩, []) := by cbv
  rw [RewriteOptions.apply, hsettings]
  simp only [Settings.apply, hplan, List.filterMap_cons, Outcome.job?, List.filterMap_nil, hrun]
  exact ⟨rfl, by decide +kernel, by decide +kernel⟩

theorem sheets_twins : twins.stylesheets [.ofString "/s", .ofString "/t"] =
    [.ofString "/s/a.css", .ofString "/t/a.css"] := by cbv

theorem run_twins : ∃ r, ofPaths strict twins [.ofString "/s", .ofString "/t"] =
    (r, .error (.rejected 1)) ∧ r.disk = secondStored := by
  obtain ⟨hdisk, hreport, htext⟩ := apply_first
  obtain ⟨hdisk', hreport', htext'⟩ := apply_second
  have hread : Stylesheet.read twins (.ofString "/s/a.css") = .ok siteSheet :=
    read_of_text (by cbv) (by cbv)
  have hread' : Stylesheet.read firstStored (.ofString "/t/a.css") = .ok secondSheet :=
    read_of_text (by cbv) (by cbv)
  obtain ⟨first, hfirst, hstored, hsummary⟩ :=
    exists_processes (c := strict) (r := { disk := twins }) (e := firstStored) hread (by
      rw [hdisk, htext]
      cbv)
  obtain ⟨second, hsecond, hstored', hsummary'⟩ :=
    exists_processes (c := strict) (r := first) (e := secondStored) (hstored ▸ hread') (by
      rw [hstored, hdisk', htext']
      cbv)
  rw [hreport] at hsummary
  rw [hstored, hreport', hsummary] at hsummary'
  have hvalid : (strict.validate twins
      (twins.stylesheets [.ofString "/s", .ofString "/t"])).finish = (.ok (), []) := by cbv
  have hall : processAll strict { disk := twins }
      (twins.stylesheets [.ofString "/s", .ofString "/t"]) = (second, .ok ()) := by
    rw [sheets_twins, processAll, hfirst]
    simp only
    rw [processAll, hsecond]
    rfl
  obtain ⟨r, hrun, hr⟩ := ofPaths_of_processAll
    (by rw [sheets_twins]; exact List.cons_ne_nil _ _) hvalid hall
  rw [hsummary'] at hrun
  exact ⟨r, hrun, hr.trans hstored'⟩

/-- The first sheet is rejected and handed on as it was read. So the run fails, but the second sheet
is rewritten and takes its place. -/
theorem ofPaths_exact_twins : ∃ r, ofPaths strict twins [.ofString "/s", .ofString "/t"] =
      (r, .error (.rejected 1)) ∧
    (∃ stages, Exact strict twins [.ofString "/s", .ofString "/t"] stages r
      (.error (.rejected 1))) ∧
    r.log.countP LogEntry.isRepeat = 1 ∧
    r.disk.contentOf (.ofString "/o/a.css") = .ok (Utf8.encode siteText) := by
  obtain ⟨r, hrun, hr⟩ := run_twins
  have hvalid : (strict.validate twins
      (twins.stylesheets [.ofString "/s", .ofString "/t"])).finish.1 = .ok () := by cbv
  obtain ⟨stages, hexact⟩ := ofPaths_exact hrun (by rw [sheets_twins]; exact List.cons_ne_nil _ _)
    hvalid (by rintro e he; cases he; rfl)
  have hcount := hexact.repeats (Option.some_ne_none _)
  rw [sheets_twins] at hcount
  have hnames : ([.ofString "/s/a.css", .ofString "/t/a.css"].filterMap
      Path.fileName?).dedup.length = 1 := by decide +kernel
  rw [hnames] at hcount
  refine ⟨r, hrun, ⟨stages, hexact⟩, Nat.add_right_cancel hcount, ?_⟩
  rw [hr]
  cbv

end Run

end StyleAssets
