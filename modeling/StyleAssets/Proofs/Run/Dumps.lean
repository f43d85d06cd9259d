import StyleAssets.Proofs.Path.Canonical
import StyleAssets.Proofs.Run.Rerun

/-!
# What new urls point at

A rewritten url names a copy in the dump directory. Names of copies are short, and two assets may
come to share one: within a sheet the first keeps it, with a warning, but a later sheet overwrites
the copies of an earlier one without a word.

* `Config.DumpsApart` — no copy of a run gives way to anything that is written later.
* `Run.Dumped` — the copies of a sheet stand in their places; `Dumped.processes` keeps it.
* `Run.ofPaths_dumps` — **main result**: without such overwriting every new url points at what its
  asset held before the run, or a warning has been given.
-/

namespace StyleAssets

namespace Config

/-- No place that a copy fills is filled with something else, neither by another copy nor by a text,
and no copy is made onto its own source. -/
structure DumpsApart (c : Config) (d d' : Disk) (sheets : List Path) : Prop where
  self : ∀ p ∈ sheets, ∀ job ∈ c.copies d p, ∀ position file place,
    d.find job.source = .ok (position, .file file) → d.writable job.target = .ok place →
      position.place ≠ place
  copy : ∀ p ∈ sheets, ∀ q ∈ sheets, ∀ job ∈ c.copies d p, ∀ other ∈ c.copies d q,
    ∀ place file file', job.effect d = .ok (place, file) → other.effect d = .ok (place, file') →
      file'.content = file.content
  text : ∀ p ∈ sheets, ∀ q ∈ sheets, ∀ job ∈ c.copies d p, ∀ place file target,
    job.effect d = .ok (place, file) → c.output? q = some target → d'.aim target ≠ .ok place

end Config

namespace Disk

/-- A file at a location holds some content. -/
def Contains (d : Disk) (place : Location) (content : Bytes) : Prop :=
  ∃ file, d.tree.get? place = some (.file file) ∧ file.content = content

variable {d d' e e' : Disk} {place : Location} {content : Bytes}

theorem Contains.put_of_ne (h : d.Contains place content) {other : Location} (hne : place ≠ other)
    (entry : Entry) : (d.put other entry).Contains place content := by
  obtain ⟨file, hget, hcontent⟩ := h
  exact ⟨file, by rw [get?_put_of_ne hne, hget], hcontent⟩

/-- Storing a text leaves alone what stands elsewhere. -/
theorem Contains.store {c : Config} {p : Path} {css : Text} (h : e.Contains place content)
    (hstore : c.store e p css = some e') (hlater : e'.Grows d')
    (hne : ∀ target, c.output? p = some target → d'.aim target ≠ .ok place) :
    e'.Contains place content := by
  obtain ⟨-, rfl⟩ | ⟨directory, target, made, other, -, htarget, hmade, hwritable, rfl⟩ :=
    Config.store_eq_some hstore
  · exact h
  · have hother : place ≠ other := by
      rintro rfl
      exact hne target htarget (Config.aim_later (Disk.writable_eq_ok.1 hwritable).1
        (Disk.receives_refilled hwritable _) hlater).1
    obtain ⟨file, hget, hcontent⟩ := h
    have hmadeContains : made.Contains place content :=
      ⟨file, (Disk.furnishes_of_makeDirectories hmade).keeps hget, hcontent⟩
    exact hmadeContains.put_of_ne hother _

end Disk

namespace CopyJob

variable {filled made : Location → Prop} {d e : Disk} {jobs : List CopyJob} {place : Location}
  {content : Bytes}

/-- Copies that do not fail could have been made from the start. -/
theorem exists_effect_of_failures (h : Disk.Evolves filled made d e)
    (hsteady : ∀ job ∈ jobs, job.Steady filled made d)
    (hfills : ∀ job ∈ jobs, job.FillsOnly filled d) (hnone : (runEach e jobs).2.failures = []) :
    ∀ job ∈ jobs, ∃ place file, job.effect d = .ok (place, file) ∧ d.user.owns file = true := by
  induction jobs generalizing e with
  | nil => exact nofun
  | cons job jobs ih =>
    obtain ⟨hjob, hsteady⟩ := List.forall_mem_cons.1 hsteady
    obtain ⟨hfill, hfills⟩ := List.forall_mem_cons.1 hfills
    obtain ⟨⟨bytes, houtcome⟩, hnone⟩ := runEach_cons_of_failures hnone
    obtain ⟨place, file, heffect, howns⟩ := exists_effect_of_ok houtcome
    rw [h.grows.user] at howns
    exact List.forall_mem_cons.2 ⟨⟨place, file, effect_of_evolves_ok h hjob heffect, howns⟩,
      ih (evolves_attempt h hjob hfill) hsteady hfills hnone⟩

/-- Copies that do not fail and agree about a place leave there what they agree about. -/
theorem contains_runEach (h : Disk.Evolves filled made d e)
    (hsteady : ∀ job ∈ jobs, job.Steady filled made d)
    (hfills : ∀ job ∈ jobs, job.FillsOnly filled d) (hnone : (runEach e jobs).2.failures = [])
    (hsame : ∀ job ∈ jobs, ∀ file, job.effect d = .ok (place, file) → file.content = content)
    (hcontains : (∃ job ∈ jobs, ∃ file, job.effect d = .ok (place, file)) ∨
      e.Contains place content) :
    (runEach e jobs).1.Contains place content := by
  induction jobs generalizing e with
  | nil => exact hcontains.resolve_left nofun
  | cons job jobs ih =>
    obtain ⟨hjob, hsteady⟩ := List.forall_mem_cons.1 hsteady
    obtain ⟨hfill, hfills⟩ := List.forall_mem_cons.1 hfills
    obtain ⟨hagrees, hsame⟩ := List.forall_mem_cons.1 hsame
    obtain ⟨⟨bytes, houtcome⟩, hnone⟩ := runEach_cons_of_failures hnone
    obtain ⟨other, file, heffect, -⟩ := exists_effect_of_ok houtcome
    have heffect' := effect_of_evolves_ok h hjob heffect
    have hattempt : (job.attempt e).1 = e.put other (.file file) := by rw [attempt_eq, heffect]
    rw [runEach_cons]
    refine ih (evolves_attempt h hjob hfill) hsteady hfills hnone hsame ?_
    by_cases hplace : place = other
    · -- this copy fills the place
      subst hplace
      rw [hattempt]
      exact .inr ⟨file, Disk.get?_put_self (receives_of_effect heffect).takes _,
        hagrees file heffect'⟩
    · rw [hattempt]
      refine hcontains.imp ?_ fun hbefore => hbefore.put_of_ne hplace _
      rintro ⟨first, hfirst, found, hfound⟩
      obtain rfl | hfirst := List.mem_cons.1 hfirst
      · rw [heffect'] at hfound
        cases hfound
        exact absurd rfl hplace
      · exact ⟨first, hfirst, found, hfound⟩

end CopyJob

namespace Run

section

variable [Minifier] {c : Config} {d d' : Disk} {sheets : List Path} {p q : Path} {r r' : Run}
  {sheet : Stylesheet}

/-- The copies of a sheet stand in their places, and the warnings about them have been given. -/
def Dumped (c : Config) (d : Disk) (p : Path) (r : Run) : Prop :=
  ∃ sheet, Stylesheet.read d p = .ok sheet ∧
    (∀ entry ∈ CopyJob.clashWarningsAfter [] (c.rewriteOptions.jobs d sheet), entry ∈ r.log) ∧
    ∀ job ∈ c.copies d p, ∃ place file, job.effect d = .ok (place, file) ∧
      d.user.owns file = true ∧ r.disk.Contains place file.content

theorem Processes.failures_runEach (h : Processes c r p sheet r')
    (hcalm : c.Undisturbed d d' sheets) (hp : p ∈ sheets) (hr : c.Underway d d' sheets r.disk)
    (hfailures : (c.rewriteOptions.apply r.disk sheet).report.failures = []) :
    (CopyJob.runEach r.disk (c.copies d p)).2.failures = [] := by
  have hread : Stylesheet.read d p = .ok sheet := (hcalm.read hp hr).symm.trans h.read
  rw [← hfailures, (c.rewriteOptions.apply_runAll r.disk sheet).2.1, Config.jobs_of_underway hr,
    Config.copies_of_read hread]
  rfl

/-- A copy that stands in its place before a sheet is processed, or is made for the sheet, stands in
its place afterwards. -/
theorem Processes.contains (h : Processes c r p sheet r') (hcalm : c.Undisturbed d d' sheets)
    (hapart : c.DumpsApart d d' sheets) (hp : p ∈ sheets) (hq : q ∈ sheets)
    (hr : c.Underway d d' sheets r.disk) (hlater : r'.disk.Grows d')
    (hfailures : (c.rewriteOptions.apply r.disk sheet).report.failures = []) {job : CopyJob}
    (hjob : job ∈ c.copies d q) {place : Location} {file : File}
    (heffect : job.effect d = .ok (place, file))
    (hbefore : job ∈ c.copies d p ∨ r.disk.Contains place file.content) :
    r'.disk.Contains place file.content := by
  have hread : Stylesheet.read d p = .ok sheet := (hcalm.read hp hr).symm.trans h.read
  refine Disk.Contains.store ?_ h.store hlater
    fun target htarget => hapart.text q hq p hp job hjob place file target heffect htarget
  rw [Config.disk_apply hr hread]
  exact CopyJob.contains_runEach hr (hcalm.copy p hp) (fun job => Config.fills_of_effect hp)
    (h.failures_runEach hcalm hp hr hfailures)
    (fun other hother file' heffect' =>
      hapart.copy q hq p hp job hjob other hother place file file' heffect heffect')
    (hbefore.imp_left fun hcopy => ⟨job, hcopy, file, heffect⟩)

/-- Processing a sheet keeps the copies of others. -/
theorem Dumped.processes (hq : Dumped c d q r) (h : Processes c r p sheet r')
    (hcalm : c.Undisturbed d d' sheets) (hapart : c.DumpsApart d d' sheets) (hp : p ∈ sheets)
    (hmem : q ∈ sheets) (hr : c.Underway d d' sheets r.disk) (hlater : r'.disk.Grows d')
    (hfailures : (c.rewriteOptions.apply r.disk sheet).report.failures = []) :
    Dumped c d q r' := by
  obtain ⟨other, hread, hwarnings, hcopies⟩ := hq
  refine ⟨other, hread,
    fun entry hentry => h.log entry (List.mem_append_left _ (hwarnings entry hentry)),
    fun job hjob => ?_⟩
  obtain ⟨place, file, heffect, howns, hcontains⟩ := hcopies job hjob
  exact ⟨place, file, heffect, howns,
    h.contains hcalm hapart hp hmem hr hlater hfailures hjob heffect (.inr hcontains)⟩

/-- Processing a sheet makes its copies. -/
theorem Processes.dumped (h : Processes c r p sheet r') (hcalm : c.Undisturbed d d' sheets)
    (hapart : c.DumpsApart d d' sheets) (hp : p ∈ sheets) (hr : c.Underway d d' sheets r.disk)
    (hlater : r'.disk.Grows d')
    (hfailures : (c.rewriteOptions.apply r.disk sheet).report.failures = []) :
    Dumped c d p r' := by
  have hread : Stylesheet.read d p = .ok sheet := (hcalm.read hp hr).symm.trans h.read
  refine ⟨sheet, hread, fun entry hentry => h.log entry (List.mem_append_right _ ?_),
    fun job hjob => ?_⟩
  · refine (c.rewriteOptions.apply_runAll r.disk sheet).2.2 entry ?_
    rw [Config.jobs_of_underway hr]
    exact hentry
  · obtain ⟨place, file, heffect, howns⟩ := CopyJob.exists_effect_of_failures hr
      (hcalm.copy p hp) (fun job => Config.fills_of_effect hp)
      (h.failures_runEach hcalm hp hr hfailures) job hjob
    exact ⟨place, file, heffect, howns,
      h.contains hcalm hapart hp hp hr hlater hfailures hjob heffect (.inl hjob)⟩

theorem copyFailures_le {rest : List Path} (h : processAll c r rest = (r', .ok ())) :
    r.summary.copyFailures ≤ r'.summary.copyFailures := by
  induction rest generalizing r with
  | nil =>
    cases h
    exact Nat.le_refl _
  | cons p rest ih =>
    obtain ⟨after, sheet, hprocesses, hall⟩ := processAll_cons_eq_ok h
    have hle := ih hall
    rw [hprocesses.summary] at hle
    exact Nat.le_trans (Nat.le_add_right _ _) hle

/-- In a run without failures the copies of all sheets stand in their places in the end. -/
theorem dumped_of_processAll {done rest : List Path} (h : processAll c r rest = (r', .ok ()))
    (hcalm : c.Undisturbed d r'.disk sheets) (hapart : c.DumpsApart d r'.disk sheets)
    (hdone : ∀ q ∈ done, q ∈ sheets ∧ Dumped c d q r) (hrest : ∀ q ∈ rest, q ∈ sheets)
    (hr : c.Underway d r'.disk sheets r.disk) (hnone : r'.summary.copyFailures = 0) :
    ∀ q ∈ done ++ rest, Dumped c d q r' := by
  induction rest generalizing r done with
  | nil =>
    cases h
    intro q hq
    exact (hdone q (by simpa using hq)).2
  | cons p rest ih =>
    obtain ⟨hp, hrest⟩ := List.forall_mem_cons.1 hrest
    obtain ⟨after, sheet, hprocesses, hall⟩ := processAll_cons_eq_ok h
    have hlater := grows_processAll hall
    have hfailures : (c.rewriteOptions.apply r.disk sheet).report.failures = [] := by
      have hle := copyFailures_le hall
      rw [hprocesses.summary, hnone] at hle
      exact List.length_eq_zero_iff.1 (Nat.eq_zero_of_add_eq_zero_left (Nat.le_zero.1 hle))
    have hdone' : ∀ q ∈ done ++ [p], q ∈ sheets ∧ Dumped c d q after := by
      intro q hq
      obtain hq | hq := List.mem_append.1 hq
      · obtain ⟨hmem, hdumped⟩ := hdone q hq
        exact ⟨hmem, hdumped.processes hprocesses hcalm hapart hp hmem hr hlater hfailures⟩
      · rw [List.mem_singleton.1 hq]
        exact ⟨hp, hprocesses.dumped hcalm hapart hp hr hlater hfailures⟩
    have hall' := ih hall hdone' hrest (hprocesses.underway hcalm hp hr hlater)
    simpa using hall'

/-- **New urls point at their assets:** after a run without failures, in which nothing that is read
is written and no copy is overwritten by something else, the copy that a new url names holds what
its asset held before, unless there was a warning that another asset keeps the name. -/
theorem ofPaths_dumps {paths : List Path} {summary : RunSummary}
    (h : ofPaths c d paths = (r, .ok summary)) (hnone : summary.copyFailures = 0)
    (hcalm : c.Undisturbed d r.disk (d.stylesheets paths))
    (hapart : c.DumpsApart d r.disk (d.stylesheets paths)) :
    ∀ p ∈ d.stylesheets paths, ∃ sheet, Stylesheet.read d p = .ok sheet ∧
      ∀ x ∈ StyleTree.declarations sheet, ∀ raw value job,
        c.rewriteOptions.outcome d.cwdPath? sheet.sourceFile x = .rewrite raw value job →
          CopyJob.clashWarning job ∈ r.log ∨
            ∃ content, d.read job.source = .ok content ∧
              r.disk.contentOf job.target = .ok content := by
  obtain ⟨-, -, log, last, hall, hdisk, hsummary, -, hlog⟩ := ofPaths_eq_ok h
  rw [hdisk] at hcalm hapart ⊢
  rw [← hsummary] at hnone
  have hgrows : d.Grows last.disk := grows_processAll hall
  have hdumped : ∀ p ∈ [] ++ d.stylesheets paths, Dumped c d p last :=
    dumped_of_processAll hall hcalm hapart nofun (fun _ => id) (.refl _ _ d) hnone
  intro p hp
  obtain ⟨sheet, hread, hwarnings, hcopies⟩ := hdumped p hp
  refine ⟨sheet, hread, fun x hx raw value job houtcome => ?_⟩
  have hjob : job ∈ c.rewriteOptions.jobs d sheet :=
    List.mem_filterMap.2 ⟨x, hx, congrArg Outcome.job? houtcome⟩
  obtain ⟨first, hfirst, hfind, htarget⟩ := CopyJob.exists_first hjob
  by_cases hgives : CopyJob.givesWay (c.rewriteOptions.jobs d sheet) job = true
  · left
    refine hlog.subset (hwarnings _ ?_)
    rw [CopyJob.clashWarnings_eq]
    exact List.mem_map_of_mem (List.mem_filter.2 ⟨hjob, hgives⟩)
  · right
    have hsource : first.source.Same job.source := by
      rw [CopyJob.givesWay, hfind] at hgives
      simpa using hgives
    -- a copy that does not give way is the one that was made
    have hsame : first = job := by
      obtain ⟨dir, raw₁, hdir, rfl⟩ := RewriteOptions.mem_jobs hjob
      obtain ⟨dir', raw₂, hdir', rfl⟩ :=
        RewriteOptions.mem_jobs ((CopyJob.firstOfEach_sublist _).subset hfirst)
      obtain rfl : dir' = dir := Option.some.inj (hdir'.symm.trans hdir)
      exact congrArg₂ CopyJob.mk (CopyJob.source_eq_of_same hsource)
        (CopyJob.target_eq_of_same htarget)
    subst hsame
    rw [← Config.copies_of_read hread] at hfirst
    obtain ⟨place, file, heffect, howns, found, hget, hcontains⟩ := hcopies first hfirst
    obtain ⟨position, source, hsource, hmay, hwritable, hcontent, -⟩ :=
      CopyJob.effect_eq_ok_of_owns heffect howns
    rw [if_neg (hapart.self p hp first hfirst position source place hsource hwritable)] at hcontent
    refine ⟨source.content, by rw [Disk.read, hsource]; exact if_pos hmay, ?_⟩
    rw [← hcontent, ← hcontains]
    exact Disk.contentOf_of_aim hgrows (Disk.writable_eq_ok.1 hwritable).1 hget

end

/-- The copy of the site keeps its place. -/
theorem dumpsApart_site : siteConfig.DumpsApart site siteAfter [.ofString "/s/a.css"] := by
  have heffect : siteCopy.effect site =
      .ok ([[0x64], Utf8.encode "a_dumped_i.c".toList], { content := [1] }) := by
    cbv
  refine ⟨?_, ?_, ?_⟩
  · intro p hp job hjob position file place hfind hwritable
    obtain rfl := List.mem_singleton.1 hp
    rw [copies_site, List.mem_singleton] at hjob
    subst hjob
    obtain ⟨_, _, -, -, hwritable', -⟩ := CopyJob.effect_eq_ok heffect
    have hplace : site.find siteCopy.source =
        .ok (⟨[[0x73], Utf8.encode "i.c".toList], 0⟩, .file { content := [1] }) := by cbv
    rw [hplace] at hfind
    cases hfind
    rw [hwritable'] at hwritable
    cases hwritable
    decide +kernel
  · intro p hp q hq job hjob other hother place file file' hcopy hcopy'
    obtain rfl := List.mem_singleton.1 hp
    obtain rfl := List.mem_singleton.1 hq
    rw [copies_site, List.mem_singleton] at hjob hother
    subst hjob hother
    rw [hcopy] at hcopy'
    cases hcopy'
    rfl
  · intro p hp q hq job hjob place file target hcopy htarget haim
    obtain rfl := List.mem_singleton.1 hp
    obtain rfl := List.mem_singleton.1 hq
    rw [copies_site, List.mem_singleton] at hjob
    subst hjob
    rw [heffect] at hcopy
    cases hcopy
    have hplace : siteConfig.output? (.ofString "/s/a.css") = some (.ofString "/o/a.css") := by
      decide +kernel
    have haim' : siteAfter.aim (.ofString "/o/a.css") =
        .ok [[0x6F], Utf8.encode "a.css".toList] := by cbv
    rw [hplace] at htarget
    cases htarget
    rw [haim'] at haim
    cases haim

theorem ofPaths_dumps_site : ∃ r, ofPaths siteConfig site [.ofString "/s/a.css"] =
      (r, .ok { stylesheets := 1, rewritten := 1, copied := 1 }) ∧
    ∃ sheet, Stylesheet.read site (.ofString "/s/a.css") = .ok sheet ∧
      ∀ x ∈ StyleTree.declarations sheet, ∀ raw value job,
        siteConfig.rewriteOptions.outcome site.cwdPath? sheet.sourceFile x =
          .rewrite raw value job →
          CopyJob.clashWarning job ∈ r.log ∨
            ∃ content, site.read job.source = .ok content ∧
              r.disk.contentOf job.target = .ok content := by
  obtain ⟨r, hrun, hr⟩ := run_site
  exact ⟨r, hrun, ofPaths_dumps hrun rfl (by rw [hr, sheets_site]; exact undisturbed_site)
    (by rw [hr, sheets_site]; exact dumpsApart_site) _
    (by rw [sheets_site]; exact List.mem_singleton_self _)⟩

end Run

end StyleAssets
