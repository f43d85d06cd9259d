import StyleAssets.Proofs.Run.Stage
import StyleAssets.Proofs.Url.Extension
import StyleAssets.Proofs.Url.First

/-!
# Inline data

A url that begins with `data:` is told from a file by its end alone: it counts as inline data as
long as it does not end like the name of a file.

* `Url.kind_data` — the kind of a url that begins with `data:`.
* `RewriteOptions.data_passes_through` — **main result**: such a url is left alone exactly if it
  does not end in an extension, or has a host in it; then nothing is copied for it.
* `RewriteOptions.inline_image_rewritten` — an inline image that is taken for a file.
-/

namespace StyleAssets

namespace Url

/-- Does a url begin with `data:`, in capital or small letters? -/
def IsData (raw : Text) : Prop := (raw.take 5).map Char.toLower = "data:".toList

/-- A text that ends like the name of a file, in an extension. -/
def EndsLikeFile (raw : Text) : Prop :=
  ∃ stem ending, IsExtension ending ∧ raw = stem ++ '.' :: ending

/-- A text that names a host. -/
def NamesHost (raw : Text) : Prop := ∃ before after, raw = before ++ "://".toList ++ after

variable {raw : Text}

theorem hasExtension_iff : hasExtension raw = true ↔ EndsLikeFile raw := by
  constructor
  · intro h
    obtain ⟨⟨stem, ending⟩, hsplit⟩ := Option.isSome_iff_exists.1 h
    obtain ⟨htext, hending⟩ := splitExtension?_eq_some_iff.1 hsplit
    exact ⟨stem, ending, hending, htext⟩
  · rintro ⟨stem, ending, hending, htext⟩
    have hsplit := splitExtension?_eq_some_iff.2 ⟨htext, hending⟩
    exact Option.isSome_iff_exists.2 ⟨_, hsplit⟩

theorem includes_host_iff : Text.includes [':', '/', '/'] raw = true ↔ NamesHost raw :=
  Text.includes_iff

/-- Inline data is never taken for an absolute url. -/
theorem IsData.head_ne (h : IsData raw) : raw.head? ≠ some '/' := by
  intro hslash
  obtain ⟨rest, rfl⟩ := List.head?_eq_some_iff.1 hslash
  unfold IsData at h
  rw [List.take_succ_cons, List.map_cons] at h
  exact absurd (List.cons.inj h).1 (by decide)

/-- The three ways in which a url that begins with `data:` is taken. -/
theorem kind_data (h : IsData raw) :
    (¬EndsLikeFile raw ∧ kind raw = .dataUri) ∨
    (EndsLikeFile raw ∧ NamesHost raw ∧ kind raw = .externalProtocol) ∨
    (EndsLikeFile raw ∧ ¬NamesHost raw ∧ kind raw = .localRelative) := by
  unfold kind
  by_cases hending : EndsLikeFile raw
  · right
    rw [hasExtension_iff.2 hending, if_neg (by simp), if_neg h.head_ne]
    by_cases hhost : NamesHost raw
    · rw [if_pos (includes_host_iff.2 hhost)]
      exact .inl ⟨hending, hhost, rfl⟩
    · rw [if_neg (mt includes_host_iff.1 hhost)]
      exact .inr ⟨hending, hhost, rfl⟩
  · left
    have hextension : hasExtension raw = false := by simpa using mt hasExtension_iff.1 hending
    rw [hextension]
    exact ⟨hending, rfl⟩

end Url

namespace RewriteOptions

variable {o : RewriteOptions} {dir : Path} {pre : Text} {x : Declaration} {r : UrlReference}

/-- What becomes of a value whose url begins with `data:`. -/
theorem outcome_data (s : Settings) (cwd : Option Path) (path : Path) {value : Text}
    (hfound : UrlReference.extract value = .ok (some r)) (hdata : Url.IsData r.raw) :
    (¬(Url.EndsLikeFile r.raw ∧ ¬Url.NamesHost r.raw) ∧
      ∃ reason, s.outcome cwd path value = .skip reason) ∨
    ((Url.EndsLikeFile r.raw ∧ ¬Url.NamesHost r.raw) ∧
      ∃ new job, s.outcome cwd path value = .rewrite r.raw new job) := by
  rw [Settings.outcome, hfound]
  simp only [UrlReference.kind]
  rcases Url.kind_data hdata with ⟨hend, hkind⟩ | ⟨hend, hhost, hkind⟩ | ⟨hend, hhost, hkind⟩
  · rw [hkind]
    exact .inl ⟨fun h => hend h.1, _, rfl⟩
  · rw [hkind]
    exact .inl ⟨fun h => h.2 hhost, _, rfl⟩
  · rw [hkind]
    exact .inr ⟨⟨hend, hhost⟩, _, _, rfl⟩

/-- A declaration that is left alone stays where it is, and no copy is made for it. -/
theorem apply_of_left_alone {σ : Type} [StyleTree σ] [LawfulStyleTree σ] (o : RewriteOptions)
    (d : Disk) {sheet : σ} {before after : List Declaration}
    (hsheet : StyleTree.declarations sheet = before ++ x :: after)
    (hnone : (o.outcome d.cwdPath? (StyleTree.sourceFile sheet) x).newValue? = none) :
    (o.apply d sheet).disk = (CopyJob.runAll d ((before ++ after).filterMap fun y =>
        (o.outcome d.cwdPath? (StyleTree.sourceFile sheet) y).job?)).1 ∧
      (StyleTree.declarations (o.apply d sheet).sheet)[before.length]? = some x := by
  constructor
  · have hjobs : o.jobs d sheet = (before ++ after).filterMap fun y =>
        (o.outcome d.cwdPath? (StyleTree.sourceFile sheet) y).job? := by
      have hjob := Outcome.newValue?_eq_none_iff.1 hnone
      simp [jobs, hsheet, hjob]
    rw [(o.apply_runAll d sheet).1, hjobs]
  · rcases o.declarations_apply d sheet with hsame | hrewritten
    · rw [hsame, hsheet]
      simp
    · rw [hrewritten, rewritten, hsheet]
      simp [Outcome.put_of_none hnone]

/-- **Inline data passes through** exactly if it does not end like the name of a file, or has a host
in it. Then its declaration stays as it is, and nothing is copied for it. -/
theorem data_passes_through (hdir : o.dumpDir = some dir) (hpre : o.urlPrefix = some pre)
    (hfound : UrlReference.extract x.value = .ok (some r)) (hdata : Url.IsData r.raw) :
    (∀ cwd path, (∃ reason, o.process cwd path x = .ok (.skip reason)) ↔
      ¬(Url.EndsLikeFile r.raw ∧ ¬Url.NamesHost r.raw)) ∧
    (∀ cwd path, (∃ raw value job, o.process cwd path x = .ok (.rewrite raw value job)) ↔
      Url.EndsLikeFile r.raw ∧ ¬Url.NamesHost r.raw) ∧
    (¬(Url.EndsLikeFile r.raw ∧ ¬Url.NamesHost r.raw) →
      ∀ {σ : Type} [StyleTree σ] [LawfulStyleTree σ] (d : Disk) (sheet : σ)
        (before after : List Declaration), StyleTree.declarations sheet = before ++ x :: after →
      (o.apply d sheet).disk = (CopyJob.runAll d ((before ++ after).filterMap fun y =>
        (o.outcome d.cwdPath? (StyleTree.sourceFile sheet) y).job?)).1 ∧
      (StyleTree.declarations (o.apply d sheet).sheet)[before.length]? = some x) := by
  have hprocess := process_of_settings hdir hpre
  have houtcome := fun cwd path => outcome_data ⟨pre, dir⟩ cwd path hfound hdata
  refine ⟨?_, ?_, ?_⟩
  · intro cwd path
    rw [hprocess]
    rcases houtcome cwd path with ⟨hpasses, reason, hskip⟩ | ⟨hfile, new, job, hrewrite⟩
    · rw [hskip]
      exact ⟨fun _ => hpasses, fun _ => ⟨reason, rfl⟩⟩
    · rw [hrewrite]
      refine ⟨?_, absurd hfile⟩
      rintro ⟨reason, hskip⟩
      cases hskip
  · intro cwd path
    rw [hprocess]
    rcases houtcome cwd path with ⟨hpasses, reason, hskip⟩ | ⟨hfile, new, job, hrewrite⟩
    · rw [hskip]
      refine ⟨?_, fun hfile => absurd hfile hpasses⟩
      rintro ⟨raw, value, job, hrewrite⟩
      cases hrewrite
    · rw [hrewrite]
      exact ⟨fun _ => hfile, fun _ => ⟨_, _, _, rfl⟩⟩
  · intro hpasses σ _ _ d sheet before after hsheet
    refine o.apply_of_left_alone d hsheet ?_
    rw [outcome, hprocess]
    rcases houtcome d.cwdPath? (StyleTree.sourceFile sheet) with ⟨-, reason, hskip⟩ | ⟨hfile, -⟩
    · simp only [hskip]
      rfl
    · exact absurd hfile hpasses

theorem data_passes_through_host :
    let o : RewriteOptions :=
      { urlPrefix := some "/p".toList, dumpDir := some (.ofText "/d".toList) }
    let x : Declaration := ⟨"background".toList, "url( 'Data:a://b/c.png' )".toList⟩
    ∃ r, UrlReference.extract x.value = .ok (some r) ∧ Url.IsData r.raw ∧
      ∀ cwd path, ∃ reason, o.process cwd path x = .ok (.skip reason) := by
  intro o x
  have hfound : UrlReference.extract x.value =
      .ok (some ⟨[], " 'Data:a://b/c.png' ".toList, []⟩) := by decide +kernel
  have hdata : Url.IsData (UrlReference.raw ⟨[], " 'Data:a://b/c.png' ".toList, []⟩) := by
    unfold Url.IsData
    decide +kernel
  obtain ⟨hskips, -, -⟩ := data_passes_through (o := o) rfl rfl hfound hdata
  refine ⟨_, hfound, hdata, fun cwd path => (hskips cwd path).2 fun hfile => hfile.2 ?_⟩
  exact Url.includes_host_iff.1 (by decide +kernel)

/-- An inline image with a number before its first parenthesis is taken for a file, and its value
does not stay. -/
theorem inline_image_rewritten :
    let o : RewriteOptions :=
      { urlPrefix := some "/p".toList, dumpDir := some (.ofText "/d".toList) }
    let x : Declaration := ⟨"background".toList,
      "url(\"data:image/svg+xml,<g transform='scale(1.5)'/>\")".toList⟩
    o.process none (.ofText "/s/a.css".toList) x = .ok (.rewrite
      "data:image/svg+xml,<g transform=scale(1.5".toList
      "url(\"/p/a_dumped_svg+xml,<g transform=scale(1.5\")'/>\")".toList
      ⟨.ofText "/s/data:image/svg+xml,<g transform=scale(1.5".toList,
        .ofText "/d/a_dumped_svg+xml,<g transform=scale(1.5".toList⟩) := by
  decide +kernel

end RewriteOptions

end StyleAssets
