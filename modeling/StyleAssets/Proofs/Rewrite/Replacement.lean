import StyleAssets.Proofs.Rewrite.AllOrNothing
import StyleAssets.Proofs.Sheet.Render
import StyleAssets.Proofs.Url.Reference

/-!
# What rewriting does to a text

A rewritten stylesheet is its text with other urls in it: the tokens that name files next to the
sheet give way to tokens that name their copies, and no other byte changes.

* `Css.Found.tokenEdit?` — the change of one declaration.
* `Stylesheet.narrows_tokenEdit?` — a new value differs from the old one in its token only.
-/

namespace StyleAssets

open Text

/-- The change of one declaration: its first url token, if that names a file next to the sheet,
gives way to one that names the copy. -/
def Css.Found.tokenEdit? (urlPrefix : Text) (cwd : Option Path) (sheet : Path) (f : Css.Found) :
    Option Edit :=
  match UrlReference.extract f.value with
  | .ok (some r) =>
    if r.kind = .localRelative then
      some ⟨f.start + r.start, f.start + r.stop, "url(\"".toList ++ urlPrefix ++
        '/' :: (OutputAsset.derive cwd sheet r.raw).name ++ "\")".toList⟩
    else none
  | _ => none

namespace Stylesheet

/-- Rewriting reaches a sheet through walks only. -/
theorem walked_apply (o : RewriteOptions) (d : Disk) (s : Stylesheet) :
    s.Walked (o.apply d s).sheet := by
  cases hsettings : o.settings (StyleTree.sourceFile s) with
  | error e =>
    rw [RewriteOptions.apply, hsettings]
    exact .refl
  | ok settings =>
    rw [RewriteOptions.apply, hsettings]
    show s.Walked (settings.apply o.missing d s).sheet
    have hplan : s.Walked (settings.plan d.cwdPath? s).1 := .walk .refl _ _
    obtain ⟨-, hsheet, -⟩ | ⟨-, hsheet, -⟩ | ⟨-, hsheet, -⟩ :=
      settings.apply_cases o.missing d s rfl
    · rwa [hsheet]
    · rwa [hsheet]
    · rw [hsheet]
      exact .walk hplan (fun x => modifyGet (Commit.next _ x)) {}

theorem slice_token {t : Text} {f : Css.Found} {r : UrlReference}
    (hslice : slice? f.start f.stop t = some f.value)
    (hr : UrlReference.extract f.value = .ok (some r)) :
    slice? (f.start + r.start) (f.start + r.stop) t =
      some (UrlReference.opening ++ r.inner ++ [')']) := by
  rw [UrlReference.stop, ← Nat.add_assoc]
  exact slice?_slice? hslice (UrlReference.value_of_extract hr).symm

/-- A new value differs from the old one in its token only. -/
theorem narrows_tokenEdit? {t : Text} {f : Css.Found} (s : Settings) (cwd : Option Path)
    (sheet : Path) (hslice : slice? f.start f.stop t = some f.value) :
    (f.edit ((s.outcome cwd sheet f.value).newValue?.getD f.value)).Narrows t
      (f.tokenEdit? s.urlPrefix cwd sheet) := by
  unfold Settings.outcome Css.Found.tokenEdit?
  cases hfound : UrlReference.extract f.value with
  | error why => exact .unchanged hslice
  | ok found =>
    cases found with
    | none => exact .unchanged hslice
    | some r =>
      have hvalue : f.value = r.before ++ (UrlReference.opening ++ r.inner ++ [')']) ++ r.after :=
        (UrlReference.value_of_extract hfound).symm
      cases hkind : r.kind with
      | localRelative =>
        simp only [hkind, if_true, UrlReference.stop, ← Nat.add_assoc]
        exact .part r.before _ r.after _ (hvalue ▸ hslice) rfl
      | _ =>
        simp only [hkind, reduceCtorEq, if_false]
        exact .unchanged hslice

/-- The present values of a rewritten sheet, put in place, are the changed tokens put in place. -/
theorem edited_rewritten (s : Settings) (cwd : Option Path) (sheet : Path) {t out : Text}
    (h : Edited 0 ((Css.scan t).1.map fun f =>
      f.edit ((s.outcome cwd sheet f.value).newValue?.getD f.value)) t out) :
    Edited 0 ((Css.scan t).1.filterMap (Css.Found.tokenEdit? s.urlPrefix cwd sheet)) t out := by
  refine Edited.narrow [] (fun f hf => ?_) h
  exact narrows_tokenEdit? s cwd sheet (Css.proper_of_mem_scan hf).slice

/-- **What rewriting does to a text.** A sheet that was rewritten is its text with the tokens that
name files next to it replaced, all at once; a sheet that was not is its text. -/
theorem render_apply (o : RewriteOptions) (d : Disk) (path : Path) (text : Text) :
    let a := o.apply d (parse path text)
    (∀ pre dir, o.urlPrefix = some pre → o.dumpDir = some dir → a.report.status = .complete →
      edit? text ((Css.scan text).1.filterMap (Css.Found.tokenEdit? pre d.cwdPath? path)) =
        some a.sheet.render) ∧
    (∀ f ∈ (Css.scan text).1, ∀ r, UrlReference.extract f.value = .ok (some r) →
      slice? (f.start + r.start) (f.start + r.stop) text =
        some (UrlReference.opening ++ r.inner ++ [')'])) ∧
    (a.report.status ≠ .complete → a.sheet.render = text) := by
  intro a
  have hwalked := walked_apply o d (parse path text)
  have hfrom := hwalked.fromText (fromText_parse path text)
  have htext : a.sheet.text = text := hwalked.found_eq.1
  refine ⟨fun pre dir hpre hdir hstatus => ?_, fun f hf r hr => ?_, fun hstatus => ?_⟩
  · have hdeclarations : StyleTree.declarations a.sheet = o.rewritten d (parse path text) :=
      RewriteOptions.declarations_of_complete (hdir ▸ Option.some_ne_none dir)
        (hpre ▸ Option.some_ne_none pre) hstatus
    have hedited := hfrom.render_spec.1
    rw [hfrom.edits_eq, hdeclarations, htext, RewriteOptions.rewritten, declarations_parse,
      RewriteOptions.outcome_of_settings hdir hpre, List.map_map, List.map_map,
      List.zipWith_map_right, List.zipWith_self] at hedited
    exact edit?_eq_some_iff.2 (edited_rewritten ⟨pre, dir⟩ d.cwdPath? path hedited)
  · exact slice_token (Css.proper_of_mem_scan hf).slice hr
  · rw [hfrom.render_eq_text, htext]
    rw [RewriteOptions.declarations_of_not_complete hstatus, declarations_parse, htext,
      List.map_map]
    rfl

theorem render_apply_one_url :
    let o : RewriteOptions :=
      { urlPrefix := some "/p".toList, dumpDir := some (.ofText "/d".toList) }
    let d : Disk := ⟨.empty, ⟨[], 0⟩, {}⟩
    let s := parse (.ofText "/s/a.css".toList) "a\x7bb:x url( i.png ) y;c:d\x7d".toList
    (o.apply d s).sheet.render = "a\x7bb:x url(\"/p/a_dumped_i.png\") y;c:d\x7d".toList := by
  intro o d s
  have hstatus : (o.apply d s).report.status = .complete := by
    obtain ⟨⟨herror, -⟩, -⟩ | ⟨-, hcomplete, -⟩ :=
      o.apply_spec d s (Option.some_ne_none _) (Option.some_ne_none _)
    · cases herror
    · exact hcomplete
  have hrender := (render_apply o d (.ofText "/s/a.css".toList)
    "a\x7bb:x url( i.png ) y;c:d\x7d".toList).1 _ _ rfl rfl hstatus
  refine Option.some.inj (hrender.symm.trans ?_)
  decide +kernel

end Stylesheet

end StyleAssets
