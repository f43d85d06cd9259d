import StyleAssets.Proofs.FileTree.Made
import StyleAssets.Proofs.Path.Ancestors
import StyleAssets.Proofs.Run.Places
import StyleAssets.Proofs.Run.Rerun

/-!
# Outputs and inputs

A run is refused if one of its sheets lies in the output directory, going by their real paths. So
its texts do not go to its sheets, as long as they go where the check has looked: into the directory
that it has seen and not through a link that stands in there.

* `Config.NoDetours` — nothing leads the texts of a run away from what the check looks at.
* `Config.Reaches` — what is true of the disks of a run; `reaches_after` says that one sheet keeps
  it.
* `Run.ofPaths_spares_inputs` — **main result**: the texts of a run that has been let through go to
  none of its sheets.
* `Run.linked_sheet_overwritten` — a link in the output directory is overlooked.
-/

namespace StyleAssets

namespace Config

variable {c : Config} {d e made : Disk} {sheets : List Path} {p q directory target : Path}
  {position : Position} {place : Location} {name : Name}

/-- Nothing leads the texts of a run away from what its check looks at: the real paths of the sheets
are known, and so is that of the output directory if it is there. If it is not, no `..` leads out of
what is missing. No link stands where a text goes. -/
structure NoDetours (c : Config) (d : Disk) (sheets : List Path) : Prop where
  sheet : ∀ q ∈ sheets, d.isFile q = true → (d.realPath? q).isSome = true
  there : ∀ directory, c.outDir = some directory → d.isDirectory directory = true →
    (d.realPath? directory).isSome = true
  missing : ∀ directory, c.outDir = some directory → d.isDirectory directory = false →
    d.Grounded directory
  output : ∀ p ∈ sheets, ∀ target, c.output? p = some target →
    ∀ position link, d.findLink target ≠ .ok (position, .link link)

/-- The output directory is where it was, or where nothing was. -/
def Settled (d e : Disk) (directory : Path) (position : Position) : Prop :=
  e.LeadsTo directory position ∧
    (d.LeadsTo directory position ∨ d.tree.get? position.place = none)

/-- A disk of a run that started with `d`: files have come to be, and perhaps the output
directory. -/
structure Reaches (c : Config) (d e : Disk) : Prop where
  grows : d.Grows e
  link : ∀ place target, e.tree.get? place = some (.link target) →
    d.tree.get? place = some (.link target)
  output : ∀ directory, c.outDir = some directory →
    d.Filled e ∨ ∃ position, Settled d e directory position

/-! ## The disks of a run -/

theorem Reaches.refl (c : Config) (d : Disk) : c.Reaches d d where
  grows := .refl d
  link _ _ h := h
  output _ _ := .inl (.refl d)

theorem Settled.grows {e' : Disk} (h : Settled d e directory position) (hgrows : e.Grows e') :
    Settled d e' directory position :=
  ⟨h.1.grows hgrows, h.2⟩

theorem Reaches.filled {e' : Disk} (h : c.Reaches d e) (hfilled : e.Filled e') :
    c.Reaches d e' where
  grows := h.grows.trans hfilled.grows
  link place target hlink := h.link place target (hfilled.link hlink)
  output directory hdirectory := by
    obtain hd | ⟨position, hsettled⟩ := h.output directory hdirectory
    · exact .inl (hd.trans hfilled)
    · exact .inr ⟨position, hsettled.grows hfilled.grows⟩

/-- Making the output directory settles it, unless it is the working directory. -/
theorem Reaches.makeDirectories (h : c.Reaches d e) (hclear : c.NoDetours d sheets)
    (hdirectory : c.outDir = some directory)
    (hmade : e.makeDirectories directory = (made, .ok ())) :
    c.Reaches d made ∧
      ((∃ position, Settled d made directory position) ∨
        directory.components = [] ∧ d.Filled made) := by
  have hfurnishes := Disk.furnishes_of_makeDirectories hmade
  have houtput : (∃ position, Settled d made directory position) ∨
      directory.components = [] ∧ d.Filled made := by
    obtain hfilled | ⟨position, hsettled⟩ := h.output directory hdirectory
    · by_cases hempty : directory.components = []
      · rw [Disk.eq_of_makeDirectories_nil hmade hempty]
        exact .inr ⟨hempty, hfilled⟩
      left
      cases hthere : e.isDirectory directory with
      | true =>
        obtain ⟨position, hfind⟩ := Disk.isDirectory_iff.1 hthere
        rw [Disk.makeDirectories_of_isDirectory hthere] at hmade
        cases hmade
        have hleads := Disk.leadsTo_of_find hfind
        exact ⟨position, hleads, .inl (hleads.of_filled hfilled)⟩
      | false =>
        have hmissing : d.isDirectory directory = false := by
          refine Bool.eq_false_iff.2 fun hd => ?_
          rw [Disk.isDirectory_of_grows h.grows hd] at hthere
          cases hthere
        obtain ⟨position, hleads, hnone⟩ := Disk.leadsTo_new hfilled hempty
          (hclear.missing directory hdirectory hmissing) hthere hmade
        exact ⟨position, hleads, .inr hnone⟩
    · exact .inl ⟨position, hsettled.grows hfurnishes.grows⟩
  refine ⟨⟨h.grows.trans hfurnishes.grows,
    fun place target hlink => h.link place target (hfurnishes.link hlink),
    fun other hother => ?_⟩, houtput⟩
  obtain rfl : directory = other := Option.some.inj (hdirectory.symm.trans hother)
  exact houtput.symm.imp And.right id

/-- What can be written in the working directory is written there. -/
theorem settled_of_aim (hfilled : d.Filled made) (hempty : directory.components = [])
    (hname : Path.IsStep (.normal name)) (haim : made.aim (directory.join ⟨name⟩) = .ok place) :
    Settled d made directory made.cwd := by
  have hleads := Disk.leadsTo_of_aim hempty hname haim
  exact ⟨hleads, .inl (hleads.of_filled hfilled)⟩

/-- The text of a sheet goes to a name in the output directory, and to no link. -/
theorem Reaches.text (h : c.Reaches d e) (hclear : c.NoDetours d sheets) (hp : p ∈ sheets)
    (hdirectory : c.outDir = some directory) (htarget : c.output? p = some target)
    (hmade : e.makeDirectories directory = (made, .ok ()))
    (hwritable : made.writable target = .ok place) (content : Bytes) :
    c.Reaches d (made.put place (.file (made.refilled place content))) ∧
      ∃ position name, target = directory.join ⟨name⟩ ∧ Path.IsStep (.normal name) ∧
        (d.LeadsTo directory position ∨ d.tree.get? position.place = none) ∧
        position.removed = 0 ∧ place = position.place ++ [name] := by
  obtain ⟨name, hfile, rfl⟩ := exists_name_of_output? hdirectory htarget
  have hname := Path.isStep_of_fileName? hfile
  obtain ⟨hreaches, houtput⟩ := h.makeDirectories hclear hdirectory hmade
  have haim := (Disk.writable_eq_ok.1 hwritable).1
  obtain ⟨position, hsettled⟩ : ∃ position, Settled d made directory position := by
    obtain hsettled | ⟨hempty, hfilled⟩ := houtput
    · exact hsettled
    · exact ⟨_, settled_of_aim hfilled hempty hname haim⟩
  obtain ⟨⟨hadmits, hrefusal⟩, hplace⟩ := Disk.aim_join hsettled.1 hname haim
  have hremoved : position.removed = 0 := by
    by_contra hremoved
    simp [FileTree.refusal?, hremoved] at hrefusal
  have hin : place = position.place ++ [name] := by
    refine hplace.resolve_right fun hlinked => ?_
    obtain ⟨link, hlink⟩ := hlinked
    -- such a link has always been there
    have hold := hreaches.link _ _ hlink
    obtain hleads | hnone := hsettled.2
    · exact hclear.output p hp _ htarget _ _
        (Disk.findLink_join hleads hname hadmits hrefusal hold)
    · rw [FileTree.get?_concat_of_none hnone] at hold
      cases hold
  have hfilled := (Disk.Filled.refl made).put (Disk.receives_refilled hwritable content)
  exact ⟨hreaches.filled hfilled, position, name, rfl, hname, hsettled.2, hremoved, hin⟩

/-! ## The check -/

/-- The directories of sheets that pass the check are not the output directory. -/
theorem not_same_of_validate (h : (c.validate d sheets).finish.1 = .ok ())
    (hdirectory : c.outDir = some directory) (hq : q ∈ sheets) {parent : Path}
    (hparent : (d.normalize q).parent? = some parent) : ¬parent.Same (d.normalize directory) := by
  intro hsame
  have hfound : ⟨.outDir, .holdsInputs, d.normalize directory⟩ ∈ c.validate d sheets := by
    rw [validate, hdirectory]
    refine List.mem_append_right _ (List.mem_append_right _ ?_)
    rw [if_pos (List.any_eq_true.2 ⟨q, hq, by simp [hparent, hsame]⟩)]
    exact List.mem_singleton_self _
  have hfatal : (c.validate d sheets).hasErrors = true := List.any_eq_true.2 ⟨_, hfound, rfl⟩
  rw [Diagnostics.finish, hfatal] at h
  cases h

/-- What the check takes for the output directory is where it is. -/
theorem NoDetours.normalize (hclear : c.NoDetours d sheets) (hdirectory : c.outDir = some directory)
    (hadmits : Disk.Admits .target (directory.join ⟨name⟩)) (hname : Path.IsStep (.normal name))
    (hleads : d.LeadsTo directory position) (hremoved : position.removed = 0) :
    (d.normalize directory).Same (Location.path position.place) := by
  by_cases hempty : directory.bytes = []
  · obtain rfl : directory = ⟨[]⟩ := congrArg Path.mk hempty
    have hat := hleads.at?
    have hcwd : position = d.cwd := by
      rw [Disk.LeadsTo, FileTree.follow_eq] at hleads
      have hnames : Path.names ⟨[]⟩ = [] := rfl
      simp only [hnames, FileTree.move] at hleads
      split at hleads
      · cases hleads
        rfl
      · cases hleads
    subst hcwd
    rw [FileTree.at?, if_pos hremoved] at hat
    exact Disk.normalize_nil hremoved (FileTree.named_of_get? hat)
  · have hadmits' : Disk.Admits .entry directory := by
      obtain ⟨front, hjoin, -, hfront⟩ :=
        Path.exists_front_join directory (Path.isAbsolute_name hname.2.2.2)
      obtain ⟨hnul, -, hlong⟩ := hadmits
      rw [hjoin] at hnul hlong
      refine ⟨fun hmem => hnul ?_, hempty, fun htooLong => hlong ⟨by decide, ?_⟩⟩
      · obtain rfl | ⟨-, rfl⟩ := hfront <;> simp [hmem]
      · have hlong' := htooLong.2
        rw [Path.isTooLong, decide_eq_true_iff] at hlong' ⊢
        obtain rfl | ⟨-, rfl⟩ := hfront <;> simp only [List.length_append] <;> omega
    have hfind := (Disk.find_directory_iff hadmits').2 hleads
    have hknown := hclear.there directory hdirectory (Disk.isDirectory_iff.2 ⟨_, hfind⟩)
    rw [Disk.normalize_of_find hfind hknown, Path.Same]

/-- **No sheet that has passed the check stands where a text goes.** -/
theorem place_ne_of_validate (hclear : c.NoDetours d sheets)
    (hvalid : (c.validate d sheets).finish.1 = .ok ()) (hdirectory : c.outDir = some directory)
    (hadmits : Disk.Admits .target (directory.join ⟨name⟩)) (hname : Path.IsStep (.normal name))
    (houtput : d.LeadsTo directory position ∨ d.tree.get? position.place = none)
    (hremoved : position.removed = 0) (hq : q ∈ sheets) {found : Position} {file : File}
    (hfind : d.find q = .ok (found, .file file)) : found.place ≠ position.place ++ [name] := by
  intro heq
  have hget := (Disk.get?_of_find hfind).1
  rw [heq] at hget
  obtain hleads | hnone := houtput
  · have hfile : d.isFile q = true := by rw [Disk.isFile, hfind]
    have hreal := Disk.normalize_of_find hfind (hclear.sheet q hq hfile)
    rw [heq] at hreal
    have hparent := Location.parent?_path (FileTree.named_of_get? hget)
    rw [← hreal] at hparent
    exact not_same_of_validate hvalid hdirectory hq hparent
      (hclear.normalize hdirectory hadmits hname hleads hremoved).symm
  · rw [FileTree.get?_concat_of_none hnone] at hget
    cases hget

/-! ## All sheets -/

/-- One sheet keeps what is true of the disks of a run. -/
theorem reaches_after [Minifier] (hclear : c.NoDetours d sheets) (hp : p ∈ sheets)
    (h : c.Reaches d e) {e' : Disk} (hafter : c.after? e p = some e') : c.Reaches d e' := by
  unfold after? at hafter
  split at hafter
  · rename_i sheet hread
    have happlied := h.filled (c.filled_apply e sheet)
    obtain ⟨-, rfl⟩ | ⟨directory, target, made, place, hdirectory, htarget, hmade, hwritable,
      rfl⟩ := store_eq_some hafter
    · exact happlied
    · exact (happlied.text hclear hp hdirectory htarget hmade hwritable _).1
  · cases hafter

/-- The text of a sheet goes to no sheet. -/
theorem spared_of_mem_textPlaces (hclear : c.NoDetours d sheets)
    (hvalid : (c.validate d sheets).finish.1 = .ok ()) (hp : p ∈ sheets) (h : c.Reaches d e)
    (hplace : place ∈ c.textPlaces e p) (hq : q ∈ sheets) {found : Position} {file : File}
    (hfind : d.find q = .ok (found, .file file)) : found.place ≠ place := by
  obtain ⟨sheet, directory, target, made, -, hdirectory, htarget, hmade, hwritable⟩ :=
    exists_of_mem_textPlaces hplace
  obtain ⟨-, position, name, rfl, hname, houtput, hremoved, rfl⟩ :=
    (h.filled (c.filled_apply e sheet)).text hclear hp hdirectory htarget hmade hwritable []
  exact place_ne_of_validate hclear hvalid hdirectory
    (Disk.admits_of_aim (Disk.writable_eq_ok.1 hwritable).1) hname houtput hremoved hq hfind

end Config

namespace Run

variable {c : Config} {d : Disk} {paths : List Path}

/-- **Outputs do not overwrite inputs.** If the check lets a run go on and nothing leads its texts
away from what the check has looked at, then none of them goes to a file that is one of the sheets,
in whatever way the run ends. The sheets keep what they hold, except where copies of assets go. -/
theorem ofPaths_spares_inputs [Minifier]
    (hvalid : (c.validate d (d.stylesheets paths)).finish.1 = .ok ())
    (hclear : c.NoDetours d (d.stylesheets paths)) :
    ∀ q ∈ d.stylesheets paths, ∀ position file, d.find q = .ok (position, .file file) →
      position.place ∉ c.along c.textPlaces d (d.stylesheets paths) ∧
      (position.place ∉ c.along c.copyPlaces d (d.stylesheets paths) →
        (ofPaths c d paths).1.disk.tree.get? position.place = some (.file file)) := by
  intro q hq position file hfind
  have htext : position.place ∉ c.along c.textPlaces d (d.stylesheets paths) := by
    intro hmem
    have hspared := Config.forall_along (position.place ≠ ·) (c.Reaches d)
      (fun p hp e he place (hplace : place ∈ c.textPlaces e p) =>
        Config.spared_of_mem_textPlaces hclear hvalid hp he hplace hq hfind)
      (fun p hp e e' he hafter => Config.reaches_after hclear hp he hafter)
      (Config.Reaches.refl c d)
    exact hspared _ hmem rfl
  refine ⟨htext, fun hcopy => ?_⟩
  have hget := (Disk.get?_of_find hfind).1
  unfold ofPaths
  simp only
  split
  · exact hget
  · cases hfinish : (c.validate d (d.stylesheets paths)).finish with
    | mk result log =>
      rw [hfinish] at hvalid
      subst hvalid
      have hkept := get?_processAll (c := c) (Run.say { disk := d } log) (d.stylesheets paths)
        hget hcopy htext
      simp only [start]
      split
      · rename_i heq
        rw [heq] at hkept
        exact hkept
      · rename_i heq
        rw [heq] at hkept
        exact hkept

/-! ## Sheets and links -/

/-- The texts of the site go to `/l/o`, which is not there yet. -/
abbrev throughLink : Config := siteInto (.ofString "/l/o")

theorem noDetours_link : throughLink.NoDetours site [.ofString "/s/a.css"] where
  sheet q hq _ := by
    obtain rfl := List.mem_singleton.1 hq
    cbv
  there directory hdirectory hthere := by
    cases hdirectory
    have hmissing : site.isDirectory (.ofString "/l/o") = false := by cbv
    rw [hmissing] at hthere
    cases hthere
  missing directory hdirectory _ := by
    cases hdirectory
    exact Disk.grounded_of_notMem (by decide +kernel)
  output p hp target htarget position link hlink := by
    obtain rfl := List.mem_singleton.1 hp
    have hplace : throughLink.output? (.ofString "/s/a.css") =
        some (.ofString "/l/o/a.css") := by decide +kernel
    rw [hplace] at htarget
    cases htarget
    have hnone : site.findLink (.ofString "/l/o/a.css") = .error .notFound := by cbv
    rw [hnone] at hlink
    cases hlink

/-- The text goes through the link, and not to the sheet. -/
theorem ofPaths_spares_inputs_link :
    (throughLink.validate site (site.stylesheets [.ofString "/s/a.css"])).finish.1 = .ok () ∧
    throughLink.along throughLink.textPlaces site [.ofString "/s/a.css"] =
      [[[0x74], [0x6F], Utf8.encode "a.css".toList]] ∧
    (ofPaths throughLink site [.ofString "/s/a.css"]).1.disk.tree.get?
      [[0x73], Utf8.encode "a.css".toList] =
        some (.file { content := Utf8.encode "a\x7bb:url(i.c)\x7d".toList }) := by
  have hfind : site.find (.ofString "/s/a.css") =
      .ok (⟨[[0x73], Utf8.encode "a.css".toList], 0⟩,
        .file { content := Utf8.encode "a\x7bb:url(i.c)\x7d".toList }) := by cbv
  have hvalid : (throughLink.validate site
      (site.stylesheets [.ofString "/s/a.css"])).finish.1 = .ok () := by cbv
  have hclear : throughLink.NoDetours site (site.stylesheets [.ofString "/s/a.css"]) := by
    rw [sheets_site]
    exact noDetours_link
  have hspared := ofPaths_spares_inputs hvalid hclear
  rw [sheets_site] at hspared
  have hcopy : throughLink.copyPlaces site (.ofString "/s/a.css") =
      [[[0x64], Utf8.encode "a_dumped_i.c".toList]] := by
    rw [Config.copyPlaces, Config.copies_of_read read_site, options_siteInto, jobs_site]
    cbv
  have htext : throughLink.textPlaces site (.ofString "/s/a.css") =
      [[[0x74], [0x6F], Utf8.encode "a.css".toList]] := by
    have hdirectory : throughLink.outDir = some (.ofString "/l/o") := rfl
    have htarget : throughLink.output? (.ofString "/s/a.css") =
        some (.ofString "/l/o/a.css") := by decide +kernel
    simp only [Config.textPlaces, read_site, hdirectory, htarget, options_siteInto, apply_site.1]
    cbv
  have hkept := (hspared _ (List.mem_singleton_self _) _ _ hfind).2
  rw [Config.along_singleton, hcopy] at hkept
  exact ⟨hvalid, (Config.along_singleton _ _ _ _).trans htext, hkept (by decide +kernel)⟩

/-- The texts of the site go to `/t`, where a link leads to the sheet. -/
abbrev overLink : Config := siteInto (.ofString "/t")

theorem read_link : Stylesheet.read site (.ofString "/t/a.css") = .ok siteSheet :=
  read_of_text (by cbv) (by cbv)

/-- The site after a run whose text has gone through the link. -/
def linkAfter : Disk :=
  siteDumped.put [[0x73], Utf8.encode "a.css".toList] (.file { content := Utf8.encode siteText })

theorem store_link :
    overLink.store (overLink.rewriteOptions.apply site siteSheet).disk (.ofString "/t/a.css")
      (textOf overLink (overLink.rewriteOptions.apply site siteSheet)) = some linkAfter := by
  obtain ⟨hdisk, -, htext⟩ := apply_site
  rw [textOf_siteInto, options_siteInto, hdisk, htext]
  cbv

/-- **A link in the output directory is overlooked:** the check looks at what the link leads to, and
the run writes through it. -/
theorem linked_sheet_overwritten :
    (overLink.validate site [.ofString "/t/a.css"]).finish.1 = .ok () ∧
    site.find (.ofString "/t/a.css") =
      .ok (⟨[[0x73], Utf8.encode "a.css".toList], 0⟩,
        .file { content := Utf8.encode "a\x7bb:url(i.c)\x7d".toList }) ∧
    (ofPaths overLink site [.ofString "/t/a.css"]).1.disk.tree.get?
      [[0x73], Utf8.encode "a.css".toList] = some (.file { content := Utf8.encode siteText }) := by
  have hsheets : site.stylesheets [.ofString "/t/a.css"] = [.ofString "/t/a.css"] := by cbv
  have hvalid : (overLink.validate site [.ofString "/t/a.css"]).finish = (.ok (), []) := by cbv
  obtain ⟨r, hrun, hr⟩ := ofPaths_of_singleton hsheets hvalid read_link store_link
  refine ⟨by rw [hvalid], by cbv, ?_⟩
  rw [hrun, hr]
  decide +kernel

end Run

end StyleAssets
