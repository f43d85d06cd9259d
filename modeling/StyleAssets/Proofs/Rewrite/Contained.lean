import StyleAssets.Proofs.FileTree.Filled
import StyleAssets.Proofs.Path.Join
import StyleAssets.Proofs.Run.Stage
import StyleAssets.Proofs.Text.Utf8

/-!
# Where copies go

Whatever a sheet is called and whatever its urls say, a copy goes to one file directly in the dump
directory, under a name that its source does not have.

* `CopyJob.Derived` — what a copy looks like, in terms of the sheet and of the url;
  `Settings.derived_of_rewrite` says that every planned copy does.
* `CopyJob.exists_target_of_changed` — running copies changes nothing but their targets.
* `RewriteOptions.copies_contained` — **main result**.
-/

namespace StyleAssets

/-! ## Names -/

/-- What ends in a letter or a digit is neither `.` nor `..` nor nothing. -/
theorem Utf8.isStep_encode {t : Text} {c : Char} (hlast : t.getLast? = some c)
    (hc : c.isAlphanum = true) (hslash : '/' ∉ t) : Path.IsStep (.normal (encode t)) := by
  obtain ⟨init, rfl⟩ := List.getLast?_eq_some_iff.1 hlast
  obtain ⟨bytes, b, hbytes⟩ : ∃ bytes b, String.utf8EncodeChar c = bytes ++ [b] :=
    ⟨_, _, (List.dropLast_append_getLast String.utf8EncodeChar_ne_nil).symm⟩
  have hdot : b ≠ Path.dot := by
    intro hb
    have hmem : Path.dot ∈ String.utf8EncodeChar c := by
      rw [hbytes, hb]
      exact List.mem_append_right _ (List.mem_singleton_self _)
    have hval : c.val.toNat = 0x2E := eq_of_mem_encodeChar (by decide) hmem
    obtain rfl : c = '.' := Char.ext (UInt32.toNat_inj.1 hval)
    cases hc
  have hencode : (encode (init ++ [c])).getLast? = some b := by
    rw [encode_append, encode, encode, List.flatMap_singleton, hbytes, ← List.append_assoc,
      List.getLast?_concat]
  refine ⟨?_, ?_, ?_, separator_notMem_encode hslash⟩
  · rintro hempty
    rw [hempty] at hencode
    cases hencode
  · rintro hname
    rw [hname] at hencode
    exact hdot (Option.some.inj hencode).symm
  · rintro hname
    rw [hname] at hencode
    exact hdot (Option.some.inj hencode).symm

/-- The file name of a path as text; nothing if the path ends in no name. -/
def Path.nameText (p : Path) : Text := (p.fileName?.map Utf8.lossy).getD []

namespace OutputAsset

theorem stem_eq (sheet : Path) : stem sheet = Url.dropExtension sheet.nameText := by
  unfold stem Path.nameText
  cases sheet.fileName? with
  | none => rfl
  | some name => rfl

theorem slash_notMem_stem (sheet : Path) : '/' ∉ stem sheet := by
  intro hmem
  rw [stem_eq] at hmem
  have hname := Url.dropExtension_subset _ hmem
  unfold Path.nameText at hname
  cases hfile : sheet.fileName? with
  | none =>
    rw [hfile] at hname
    cases hname
  | some name =>
    -- a name of a path holds no separator
    rw [hfile] at hname
    exact Utf8.slash_notMem_lossy (Path.isStep_of_fileName? hfile).2.2.2 hname

/-- The name of a copy ends as its url does, and has no `/` in it either. -/
theorem isStep_name (cwd : Option Path) (sheet : Path) {url : Text}
    (h : Url.hasExtension url = true) :
    Path.IsStep (.normal (Utf8.encode (derive cwd sheet url).name)) := by
  obtain ⟨c, hlast, hc⟩ := Url.getLast?_of_hasExtension h
  refine Utf8.isStep_encode (c := c) (getLast?_name cwd sheet hlast hc) hc ?_
  have hstem := slash_notMem_stem sheet
  have hinfix : '/' ∉ infixText := by decide
  have hbase := baseName_plain url
  simp only [derive, List.mem_append, not_or]
  exact ⟨⟨hstem, hinfix⟩, hbase⟩

end OutputAsset

/-! ## Planned copies -/

/-- What the copy of a url in a sheet looks like: `stem` is the name of the sheet without its
extension, `base` what follows the last `/` of the url. The target is one more name in the
directory, with nothing special about it, and the source is told from the root, by names only. -/
structure CopyJob.Derived (sheet dir : Path) (raw stem base : Text) (job : CopyJob) : Prop where
  stemOf : Url.IsStem sheet.nameText stem
  baseOf : '/' ∉ base ∧ ∃ lead, raw = lead ++ base ∧ (lead = [] ∨ lead.getLast? = some '/')
  name : Path.IsStep (.normal (Utf8.encode (stem ++ "_dumped_".toList ++ base)))
  target : job.target.components =
    dir.components ++ [.normal (Utf8.encode (stem ++ "_dumped_".toList ++ base))]
  source : job.source.isAbsolute = true ∧
    ∃ names : List Name, job.source.components = .root :: names.map .normal
  sourceName : job.source.fileName? = some (Utf8.encode base)
  apart : job.source.fileName? ≠ job.target.fileName? ∧ ¬job.source.Same job.target

/-- **A planned copy goes to a name of its own in the dump directory.** -/
theorem Settings.derived_of_rewrite {s : Settings} {cwd sheet : Path} {value raw new : Text}
    {job : CopyJob} (hcwd : cwd.isAbsolute = true)
    (h : s.outcome (some cwd) sheet value = .rewrite raw new job) :
    job.Derived sheet s.dumpDir raw (OutputAsset.stem sheet) (OutputAsset.baseName raw) := by
  obtain ⟨r, -, hkind, rfl, rfl, -⟩ := s.outcome_eq_rewrite h
  have hextension := Url.hasExtension_of_kind hkind
  obtain ⟨c, hlast, hc⟩ := Url.getLast?_of_hasExtension hextension
  have hbase := OutputAsset.getLast?_baseName hlast hc
  have hplain := OutputAsset.baseName_plain r.raw
  obtain ⟨lead, hraw, hlead⟩ := OutputAsset.exists_lead hextension
  have hname : Path.IsStep (.normal (Utf8.encode (OutputAsset.stem sheet ++ "_dumped_".toList ++
      OutputAsset.baseName r.raw))) := OutputAsset.isStep_name (some cwd) sheet hextension
  have htarget := Path.components_join_name s.dumpDir hname
  have hstep := Utf8.isStep_encode hbase hc hplain
  have hends : Path.EndsIn (.ofText r.raw) (Utf8.encode (OutputAsset.baseName r.raw)) := by
    refine ⟨Utf8.encode lead, ?_, ?_⟩
    · rw [← Utf8.encode_append, ← hraw]
      rfl
    · obtain rfl | hlead := hlead
      · exact .inl rfl
      · obtain ⟨init, rfl⟩ := List.getLast?_eq_some_iff.1 hlead
        exact .inr ⟨Utf8.encode init, Utf8.encode_append init ['/']⟩
  have hsource := Path.fileName?_resolve (some cwd)
    (hends.join (sheet.parent?.getD ⟨[]⟩)) hstep
  have hother : Utf8.encode (OutputAsset.baseName r.raw) ≠ Utf8.encode (OutputAsset.stem sheet ++
      "_dumped_".toList ++ OutputAsset.baseName r.raw) := by
    intro heq
    have hlength := congrArg List.length heq
    have hinfix : (Utf8.encode "_dumped_".toList).length = 8 := by decide
    simp only [Utf8.encode_append, List.length_append, hinfix] at hlength
    omega
  have hnames : ((OutputAsset.derive (some cwd) sheet r.raw).source).fileName? ≠
      (s.dumpDir.join ⟨Utf8.encode (OutputAsset.stem sheet ++ "_dumped_".toList ++
        OutputAsset.baseName r.raw)⟩).fileName? := by
    rw [OutputAsset.derive, hsource, Path.fileName?_of_components htarget]
    exact fun heq => hother (Option.some.inj heq)
  exact {
    stemOf := OutputAsset.stem_eq sheet ▸ Url.isStem_dropExtension _
    baseOf := ⟨hplain, lead, hraw, hlead⟩
    name := hname
    target := htarget
    source := Path.components_resolve (Path.isAbsolute_anchor hcwd _)
    sourceName := hsource
    apart := ⟨hnames, fun hsame => hnames (Path.fileName?_congr hsame)⟩ }

/-! ## What copies change -/

/-- **Running copies changes nothing but their targets**, as these were in the beginning. -/
theorem CopyJob.exists_target_of_changed {d e : Disk} {jobs : List CopyJob} {place : Location}
    (h : d.Filled e) (hold : e.tree.get? place = d.tree.get? place)
    (hchanged : (runEach e jobs).1.tree.get? place ≠ d.tree.get? place) :
    ∃ job ∈ jobs, d.writable job.target = .ok place := by
  induction jobs generalizing e with
  | nil => exact absurd hold hchanged
  | cons job jobs ih =>
    have hlater : ∀ {e' : Disk}, d.Filled e' → e'.tree.get? place = d.tree.get? place →
        (runEach e' jobs).1.tree.get? place ≠ d.tree.get? place →
          ∃ job' ∈ job :: jobs, d.writable job'.target = .ok place := by
      intro e' h' hold' hchanged'
      obtain ⟨other, hother, hwritable⟩ := ih h' hold' hchanged'
      exact ⟨other, List.mem_cons_of_mem _ hother, hwritable⟩
    rw [runEach_cons, attempt_eq] at hchanged
    cases heffect : job.effect e with
    | error cause =>
      rw [heffect] at hchanged
      exact hlater h hold hchanged
    | ok write =>
      obtain ⟨target, file⟩ := write
      rw [heffect] at hchanged
      by_cases hplace : place = target
      · subst hplace
        obtain ⟨_, _, -, -, hwritable, -⟩ := effect_eq_ok heffect
        obtain ⟨haim, hopen⟩ := Disk.writable_eq_ok.1 hwritable
        exact ⟨job, List.mem_cons_self, Disk.writable_eq_ok.2
          ⟨Disk.aim_of_filled h haim hold, h.grows.isOpen hopen⟩⟩
      · refine hlater (h.put (receives_of_effect heffect)) ?_ hchanged
        rw [Disk.get?_put_of_ne hplace, hold]

namespace RewriteOptions

/-- **Copies stay in the dump directory.** A planned copy goes to one more name in the dump
directory, made from the name of the sheet and the end of the url, and comes from a file of another
name. Rewriting a sheet changes no file but those that the targets of its copies denote. -/
theorem copies_contained {σ : Type} [StyleTree σ] [LawfulStyleTree σ] (o : RewriteOptions) :
    (∀ (cwd sheet : Path) (x : Declaration) (raw value : Text) (job : CopyJob),
      cwd.isAbsolute = true → o.process (some cwd) sheet x = .ok (.rewrite raw value job) →
        ∃ dir stem base, o.dumpDir = some dir ∧ job.Derived sheet dir raw stem base) ∧
    ∀ (d : Disk) (sheet : σ) (place : Location),
      (o.apply d sheet).disk.tree.get? place ≠ d.tree.get? place →
        ∃ x ∈ StyleTree.declarations sheet, ∃ raw value job,
          o.process d.cwdPath? (StyleTree.sourceFile sheet) x = .ok (.rewrite raw value job) ∧
            d.writable job.target = .ok place := by
  refine ⟨fun cwd sheet x raw value job hcwd hprocess => ?_, fun d sheet place hchanged => ?_⟩
  · obtain ⟨s, -, hdir, hrewrite⟩ := process_eq_ok hprocess
    exact ⟨s.dumpDir, _, _, hdir, s.derived_of_rewrite hcwd hrewrite⟩
  · rw [(o.apply_runAll d sheet).1] at hchanged
    obtain ⟨job, hjob, hwritable⟩ :=
      CopyJob.exists_target_of_changed (Disk.Filled.refl d) rfl hchanged
    obtain ⟨x, hx, hplanned⟩ :=
      List.mem_filterMap.1 ((CopyJob.firstOfEach_sublist _).subset hjob)
    cases houtcome : o.outcome d.cwdPath? (StyleTree.sourceFile sheet) x with
    | untouched => simp [houtcome, Outcome.job?] at hplanned
    | skip reason => simp [houtcome, Outcome.job?] at hplanned
    | rewrite raw value planned =>
      rw [houtcome] at hplanned
      cases hplanned
      exact ⟨x, hx, raw, value, job, outcome_eq_rewrite houtcome, hwritable⟩

/-- A sheet and a url that are all dots and separators. -/
theorem copies_contained_dots :
    let o : RewriteOptions := ⟨some "/p".toList, some (.ofString "/d"), .warn⟩
    let job : CopyJob := ⟨.ofString "/a/..b.png", .ofString "/d/_dumped_..b.png"⟩
    o.process (some (.ofString "/w")) (.ofString "t/.css")
        ⟨['b'], "url(../..//a/./..b.png)".toList⟩ = .ok (.rewrite "../..//a/./..b.png".toList
          "url(\"/p/_dumped_..b.png\")".toList job) ∧
      ∃ stem base, job.Derived (.ofString "t/.css") (.ofString "/d")
        "../..//a/./..b.png".toList stem base := by
  intro o job
  have hprocess : o.process (some (.ofString "/w")) (.ofString "t/.css")
      ⟨['b'], "url(../..//a/./..b.png)".toList⟩ = .ok (.rewrite "../..//a/./..b.png".toList
        "url(\"/p/_dumped_..b.png\")".toList job) := by decide +kernel
  obtain ⟨dir, stem, base, hdir, hderived⟩ :=
    (copies_contained (σ := DeclarationList) o).1 (.ofString "/w") _ _ _ _ _ rfl hprocess
  cases hdir
  exact ⟨hprocess, stem, base, hderived⟩

end RewriteOptions

end StyleAssets
