import StyleAssets.Proofs.Rewrite.AllOrNothing
import StyleAssets.Proofs.Url.First

/-!
# Rewriting again

A new url that starts at the root or at a host does not name a file next to the sheet, so there is
nothing left to rewrite.

* `Settings.newValue?_outcome_new` — a value that was rewritten is left alone from then on.
* `RewriteOptions.apply_of_settled` — where nothing is to be rewritten nothing is done.
* `RewriteOptions.apply_again` — **main result**: rewriting a second time does nothing.
-/

namespace StyleAssets

open Text

namespace Settings

variable {s : Settings} {r : UrlReference} {value : Text}

/-- A prefix of urls that starts at the root, or holds a host and no parenthesis. -/
def FromRootOrHost (urlPrefix : Text) : Prop :=
  urlPrefix.head? = some '/' ∨ includes [':', '/', '/'] urlPrefix = true ∧ ')' ∉ urlPrefix

theorem leadsAway_of_from {urlPrefix : Text} (h : FromRootOrHost urlPrefix) (name : Text) :
    UrlReference.LeadsAway (urlPrefix ++ '/' :: name) := by
  obtain hroot | ⟨hhost, hclose⟩ := h
  · left
    rw [List.head?_append, hroot]
    rfl
  · right
    obtain ⟨before, after, hsplit⟩ := includes_iff.1 hhost
    have hall : ∀ c ∈ urlPrefix, (c != ')') = true := by
      intro c hc
      exact bne_iff_ne.2 fun heq => hclose (heq ▸ hc)
    rw [List.takeWhile_append_of_pos hall, includes_iff]
    exact ⟨before, after ++ ('/' :: name).takeWhile (· != ')'), by
      rw [hsplit]; simp only [List.append_assoc]⟩

/-- **A new value is not rewritten again**, whatever stands before and after its url. -/
theorem newValue?_outcome_new (hfrom : FromRootOrHost s.urlPrefix)
    (hr : UrlReference.extract value = .ok (some r)) (name : Text) (t : Settings)
    (cwd : Option Path) (sheet : Path) :
    (t.outcome cwd sheet (r.before ++ s.newToken name ++ r.after)).newValue? = none := by
  obtain ⟨after', hfound⟩ :=
    UrlReference.exists_extract_quoted hr (s.urlPrefix ++ '/' :: name)
  obtain ⟨hblank, hkind⟩ := UrlReference.leads_away
    (r := ⟨r.before, UrlReference.quotedInner (s.urlPrefix ++ '/' :: name), after'⟩)
    (leadsAway_of_from hfrom name) rfl
  rw [newToken_eq, outcome, hfound hblank]
  simp only
  split
  · rfl
  · rfl
  · rfl
  · rename_i hlocal
    exact absurd hlocal hkind

/-- A declaration that has got its new value, or none, is left alone from then on. -/
theorem newValue?_outcome_put (hfrom : FromRootOrHost s.urlPrefix) (cwd cwd' : Option Path)
    (sheet sheet' : Path) (x : Declaration) :
    (s.outcome cwd' sheet' ((s.outcome cwd sheet x.value).put x).value).newValue? = none := by
  cases hextract : UrlReference.extract x.value with
  | error why =>
    have houtcome : ∀ cwd sheet, s.outcome cwd sheet x.value = .skip (.malformed why) := by
      intro cwd sheet
      rw [outcome, hextract]
    rw [houtcome, Outcome.put_of_none rfl, houtcome]
    rfl
  | ok found =>
    cases found with
    | none =>
      have houtcome : ∀ cwd sheet, s.outcome cwd sheet x.value = .untouched := by
        intro cwd sheet
        rw [outcome, hextract]
      rw [houtcome, Outcome.put_of_none rfl, houtcome]
      rfl
    | some r =>
      by_cases hkind : r.kind = .localRelative
      · have hput : ((s.outcome cwd sheet x.value).put x).value =
            r.before ++ s.newToken (OutputAsset.derive cwd sheet r.raw).name ++ r.after := by
          simp only [outcome, hextract, hkind]
          rfl
        rw [hput]
        exact newValue?_outcome_new hfrom hextract _ s cwd' sheet'
      · have hnone : ∀ cwd sheet, (s.outcome cwd sheet x.value).newValue? = none := by
          intro cwd sheet
          simp only [outcome, hextract]
          split
          · rfl
          · rfl
          · rfl
          · contradiction
        rw [Outcome.put_of_none (hnone cwd sheet), hnone]

end Settings

namespace RewriteOptions

variable {σ : Type} [StyleTree σ] [LawfulStyleTree σ] {o o' : RewriteOptions} {pre : Text}
  {dir : Path}

/-- **Nothing to rewrite, nothing done.** -/
theorem apply_of_settled (hdir : o.dumpDir = some dir) (hpre : o.urlPrefix = some pre) (d : Disk)
    (sheet : σ)
    (h : ∀ x ∈ StyleTree.declarations sheet, (Settings.outcome ⟨pre, dir⟩ d.cwdPath?
      (StyleTree.sourceFile sheet) x.value).newValue? = none) :
    o.jobs d sheet = [] ∧
      (∃ skipped, (o.apply d sheet).report =
        { sourceFile := StyleTree.sourceFile sheet, skipped }) ∧
      (o.apply d sheet).disk = d ∧
      StyleTree.declarations (o.apply d sheet).sheet = StyleTree.declarations sheet := by
  obtain ⟨hplanned, houtcomes⟩ := (Settings.mk pre dir).plan_spec d.cwdPath? sheet
  have hnone : ∀ x ∈ StyleTree.declarations sheet, (Settings.outcome ⟨pre, dir⟩ d.cwdPath?
      (StyleTree.sourceFile sheet) x.value).job? = none :=
    fun x hx => Outcome.newValue?_eq_none_iff.1 (h x hx)
  have hjobs : ((Settings.mk pre dir).plan d.cwdPath? sheet).2.filterMap Outcome.job? = [] := by
    rw [houtcomes, List.filterMap_map, List.filterMap_eq_nil_iff]
    exact hnone
  have happly : o.apply d sheet = (Settings.mk pre dir).apply o.missing d sheet := by
    rw [RewriteOptions.apply, RewriteOptions.settings, hdir, hpre]
  refine ⟨?_, ?_⟩
  · rw [jobs, outcome_of_settings hdir hpre]
    exact List.filterMap_eq_nil_iff.2 hnone
  · rw [happly]
    unfold Settings.apply
    simp only [hjobs, true_and]
    exact ⟨⟨_, rfl⟩, hplanned⟩

/-- **Rewriting a second time does nothing.** If the prefix of new urls starts at the root or at a
host and a sheet has been rewritten, then no declaration of the result is to be rewritten and no
file to be copied, whatever the sheet, the files and the policy. -/
theorem apply_again (hpre : o.urlPrefix = some pre) (hfrom : Settings.FromRootOrHost pre)
    (hsame : o'.urlPrefix = o.urlPrefix ∧ o'.dumpDir = o.dumpDir) (d d' : Disk) (sheet : σ)
    (hcomplete : (o.apply d sheet).report.status = .complete) :
    let a := o.apply d sheet
    let b := o'.apply d' a.sheet
    o'.jobs d' a.sheet = [] ∧
      (b.report.status = .complete ∧ b.report.rewritten = 0 ∧ b.report.copied = 0 ∧
        b.report.failures = []) ∧
      b.disk = d' ∧ StyleTree.declarations b.sheet = StyleTree.declarations a.sheet := by
  intro a b
  obtain ⟨dir, hdir⟩ : ∃ dir, o.dumpDir = some dir := by
    refine Option.ne_none_iff_exists'.1 fun hnone => ?_
    rw [(apply_of_missing d sheet (.inl hnone)).2.2] at hcomplete
    cases hcomplete
  have hsettled : ∀ x ∈ StyleTree.declarations a.sheet, (Settings.outcome ⟨pre, dir⟩ d'.cwdPath?
      (StyleTree.sourceFile a.sheet) x.value).newValue? = none := by
    intro x hx
    rw [declarations_of_complete (hdir ▸ Option.some_ne_none dir) (hpre ▸ Option.some_ne_none pre)
      hcomplete, rewritten, outcome_of_settings hdir hpre] at hx
    obtain ⟨x, -, rfl⟩ := List.mem_map.1 hx
    exact Settings.newValue?_outcome_put (s := ⟨pre, dir⟩) hfrom _ _ _ _ x
  obtain ⟨hjobs, ⟨skipped, hreport⟩, hdisk, hdeclarations⟩ :=
    apply_of_settled (hsame.2.trans hdir) (hsame.1.trans hpre) d' a.sheet hsettled
  refine ⟨hjobs, ?_, hdisk, hdeclarations⟩
  rw [hreport]
  exact ⟨rfl, rfl, rfl, rfl⟩

/-- A sheet whose name holds a parenthesis, which ends its new urls early. -/
def oddSheet : DeclarationList where
  sourceFile := .ofText "/s/a).css".toList
  declarations := [⟨"b".toList, "url() url( x.png ) y".toList⟩]

theorem apply_again_parenthesis :
    let o : RewriteOptions := ⟨some "/p)".toList, some (.ofString "/d"), .warn⟩
    let a := o.apply ⟨.empty, ⟨[], 0⟩, {}⟩ oddSheet
    let b := RewriteOptions.apply ⟨some "/p)".toList, some (.ofString "/d"), .error⟩ a.disk a.sheet
    StyleTree.declarations a.sheet =
        [⟨"b".toList, "url() url(\"/p)/a)_dumped_x.png\") y".toList⟩] ∧
      b.report.status = .complete ∧ b.report.rewritten = 0 ∧
      StyleTree.declarations b.sheet = StyleTree.declarations a.sheet := by
  intro o a b
  have hcomplete : a.report.status = .complete := by
    obtain ⟨⟨herror, -⟩, -⟩ | ⟨-, hcomplete, -⟩ :=
      o.apply_spec ⟨.empty, ⟨[], 0⟩, {}⟩ oddSheet (Option.some_ne_none _) (Option.some_ne_none _)
    · cases herror
    · exact hcomplete
  have hvalue : o.rewritten ⟨.empty, ⟨[], 0⟩, {}⟩ oddSheet =
      [⟨"b".toList, "url() url(\"/p)/a)_dumped_x.png\") y".toList⟩] := by
    decide +kernel
  obtain ⟨-, ⟨hstatus, hcount, -⟩, -, hsame⟩ :=
    @apply_again _ _ _ o ⟨some "/p)".toList, some (.ofString "/d"), .error⟩ _ rfl (.inl rfl)
      ⟨rfl, rfl⟩ _ a.disk oddSheet hcomplete
  refine ⟨?_, hstatus, hcount, hsame⟩
  rw [declarations_of_complete (Option.some_ne_none _) (Option.some_ne_none _) hcomplete, hvalue]

end RewriteOptions

end StyleAssets
