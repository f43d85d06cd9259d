import StyleAssets.Proofs.Rewrite.Again
import StyleAssets.Proofs.Rewrite.Replacement
import StyleAssets.Proofs.Url.Name

/-!
# Reading what was written

The output of a rewritten sheet is read as the declarations that were put into it, as long as the
old urls and the new ones are read as urls wherever they stand.

* `Css.Exchanges.scan` — one text within one value gives way to another.
* `Settings.contents_edited` — all urls give way, one after the other.
* `Stylesheet.parse_render_apply` — **main result**; `parse_render_apply_quoted` shows a url that is
  read as something else.
-/

namespace StyleAssets

open Text

namespace Css

variable {text front old new back lead trail : Text} {f : Found} {before after : List Found}

/-- **Another text within one value:** the declarations before stay, the one with the text has the
other one in its place, and those after say what they said. -/
theorem Exchanges.scan (h : Exchanges front old new back) (hold : Trimmed old ∧ old ≠ [])
    (hnew : Trimmed new ∧ new ≠ [])
    (hscan : (scan (front ++ old ++ back)).1 = before ++ f :: after)
    (hvalue : f.value = lead ++ old ++ trail) (hplace : f.start + byteSize lead = byteSize front) :
    ∃ after', (Css.scan (front ++ new ++ back)).1 =
        before ++ { f with value := lead ++ new ++ trail } :: after' ∧
      after'.map Found.content = after.map Found.content := by
  obtain ⟨pre, ts, ts', post, gap, behind, htokens, htokens', hfront, hexchange⟩ := h
  have hmem : f ∈ (Css.scan (front ++ old ++ back)).1 := by
    rw [hscan]
    exact List.mem_append_right _ List.mem_cons_self
  have hsmall : ∀ t ∈ pre ++ (ts ++ post), t.Small := by
    rw [← htokens]
    exact fun t => small_of_mem_tokens
  have hf : f ∈ ((pre ++ (ts ++ post)).foldl Scanner.step {}).settled := by
    rw [← htokens]
    exact List.mem_reverse.1 hmem
  obtain ⟨found, more, more', hsettled, hsettled', hsame⟩ :=
    hexchange.settled hold hnew hsmall hf hvalue (by rw [hplace, hfront])
  have hone : (Css.scan (front ++ old ++ back)).1 = found.reverse ++ f :: more.reverse := by
    show ((tokens _).foldl Scanner.step {}).settled.reverse = _
    rw [htokens, hsettled]
    simp
  have hother : (Css.scan (front ++ new ++ back)).1 =
      found.reverse ++ { f with value := lead ++ new ++ trail } :: more'.reverse := by
    show ((tokens _).foldl Scanner.step {}).settled.reverse = _
    rw [htokens', hsettled']
    simp
  -- a scan finds no declaration twice
  have hsorted := sorted_scan (front ++ old ++ back)
  have hnot : f ∉ before ∧ f ∉ after := by
    rw [hscan] at hsorted
    have hself : ¬f.stop < f.start := Nat.not_lt.2 (Nat.le_add_right _ _)
    obtain ⟨-, hafter, hbefore⟩ := List.pairwise_append.1 hsorted
    exact ⟨fun hf => hself (hbefore f hf f List.mem_cons_self),
      fun hf => hself ((List.pairwise_cons.1 hafter).1 f hf)⟩
  obtain ⟨hbefore, -, hafter⟩ :=
    (List.append_cons_inj_of_notMem hnot.1 hnot.2).1 (hscan.symm.trans hone)
  refine ⟨more'.reverse, by rw [hother, hbefore], ?_⟩
  rw [hafter, List.map_reverse, List.map_reverse, hsame]

end Css

namespace Settings

variable (s : Settings) (cwd : Option Path) (sheet : Path)

/-- What a declaration says once it is rewritten. -/
def newContent (f : Css.Found) : Text × Text :=
  (f.property, (s.outcome cwd sheet f.value).newValue?.getD f.value)

/-- In a text, a url of a file next to the sheet may give way to the new one, whatever follows. -/
def Exchangeable (t : Text) (f : Css.Found) : Prop :=
  ∀ r front, UrlReference.extract f.value = .ok (some r) → r.kind = .localRelative →
    front <+: t → byteSize front = f.start + r.start → ∀ back,
      Css.Exchanges front (Css.urlAround r.inner)
        (s.newToken (OutputAsset.derive cwd sheet r.raw).name) back

theorem newContent_cases (f : Css.Found) :
    (f.tokenEdit? s.urlPrefix cwd sheet = none ∧
      (s.outcome cwd sheet f.value).newValue? = none) ∨
    ∃ r, UrlReference.extract f.value = .ok (some r) ∧ r.kind = .localRelative ∧
      f.tokenEdit? s.urlPrefix cwd sheet = some ⟨f.start + r.start, f.start + r.stop,
        s.newToken (OutputAsset.derive cwd sheet r.raw).name⟩ ∧
      s.newContent cwd sheet f = (f.property,
        r.before ++ s.newToken (OutputAsset.derive cwd sheet r.raw).name ++ r.after) := by
  unfold newContent outcome Css.Found.tokenEdit?
  cases hfound : UrlReference.extract f.value with
  | error why => exact .inl ⟨rfl, rfl⟩
  | ok found =>
    cases found with
    | none => exact .inl ⟨rfl, rfl⟩
    | some r =>
      cases hkind : r.kind with
      | localRelative => exact .inr ⟨r, rfl, hkind, by simp only [hkind, if_true]; rfl,
          by simp [hkind]; rfl⟩
      | _ => exact .inl ⟨by simp [hkind], by simp [hkind, Outcome.newValue?]⟩

theorem newContent_of_none {f : Css.Found} (h : (s.outcome cwd sheet f.value).newValue? = none) :
    s.newContent cwd sheet f = f.content := by
  rw [newContent, h]
  rfl

theorem trimmed_urlAround (inner : Text) :
    Trimmed (Css.urlAround inner) ∧ Css.urlAround inner ≠ [] := by
  have hlast : (Css.urlAround inner).getLast? = some ')' := List.getLast?_concat ..
  refine ⟨⟨fun c hc => ?_, fun c hc => ?_⟩, List.cons_ne_nil _ _⟩
  · cases hc
    rfl
  · rw [hlast] at hc
    cases hc
    rfl

/-- The tokens of declarations from `items` on replaced, the declarations say what they should. -/
theorem contents_edited (done : Text) {rest out : Text} (before : List Css.Found)
    {items : List Css.Found}
    (hscan : (Css.scan (done ++ rest)).1 = before ++ items)
    (hitems : ∀ f ∈ items, s.Exchangeable cwd sheet (done ++ rest) f)
    (h : Edited (byteSize done) (items.filterMap (Css.Found.tokenEdit? s.urlPrefix cwd sheet))
      rest out) :
    ∃ items', (Css.scan (done ++ out)).1 = before ++ items' ∧
      items'.map Css.Found.content = items.map (s.newContent cwd sheet) := by
  induction items generalizing done rest out before with
  | nil =>
    cases h with
    | keep => exact ⟨[], hscan, rfl⟩
  | cons f items ih =>
    have hlater : ∀ f ∈ items, s.Exchangeable cwd sheet (done ++ rest) f :=
      fun f hf => hitems f (List.mem_cons_of_mem _ hf)
    have hmem : f ∈ (Css.scan (done ++ rest)).1 := by
      rw [hscan]
      exact List.mem_append_right _ List.mem_cons_self
    have hnext : (Css.scan (done ++ rest)).1 = (before ++ [f]) ++ items := by
      rw [hscan, List.append_assoc, List.singleton_append]
    obtain ⟨hedit, hnone⟩ | ⟨r, hr, hkind, hedit, hnew⟩ := s.newContent_cases cwd sheet f
    · rw [List.filterMap_cons_none hedit] at h
      obtain ⟨items', hscan', hcontents⟩ := ih done _ hnext hlater h
      refine ⟨f :: items', by rw [hscan']; simp, ?_⟩
      rw [List.map_cons, List.map_cons, hcontents, s.newContent_of_none cwd sheet hnone]
    · rw [List.filterMap_cons_some hedit] at h
      obtain ⟨gap, old, rest, out, rfl, rfl, hstart, hstop, h⟩ := h.of_cons
      have htext : done ++ (gap ++ old ++ rest) = done ++ gap ++ old ++ rest := by
        simp only [List.append_assoc]
      simp only at hstart hstop
      obtain rfl : old = Css.urlAround r.inner := by
        have hslice := Stylesheet.slice_token (Css.proper_of_mem_scan hmem).slice hr
        have hslice' : slice? (f.start + r.start) (f.start + r.stop)
            (done ++ (gap ++ old ++ rest)) = some old := by
          refine slice?_of_eq htext ?_ ?_
          · rw [hstart, byteSize_append]
          · rw [hstop, byteSize_append]
        rw [Option.some.inj (hslice'.symm.trans hslice)]
        simp [Css.urlAround, UrlReference.opening]
      -- the texts after the token change first, then the token itself
      obtain ⟨items', hscan', hcontents⟩ := ih (done ++ gap ++ Css.urlAround r.inner) _
        (by rw [← htext]; exact hnext) (by rw [← htext]; exact hlater)
        (by simpa only [byteSize_append] using h)
      rw [List.append_assoc before, List.singleton_append] at hscan'
      have hexchange := hitems f List.mem_cons_self r (done ++ gap) hr hkind
        (by rw [htext, List.append_assoc]; exact List.prefix_append _ _)
        (by rw [hstart, byteSize_append]) out
      have hplace : f.start + byteSize r.before = byteSize (done ++ gap) := by
        rw [byteSize_append]
        exact hstart
      obtain ⟨after', hscan'', hcontents'⟩ := hexchange.scan (trimmed_urlAround r.inner)
        (by rw [s.newToken_eq]; exact trimmed_urlAround _) hscan'
        (UrlReference.eq_urlAround_of_extract hr) hplace
      refine ⟨⟨f.property, r.before ++ s.newToken (OutputAsset.derive cwd sheet r.raw).name ++
        r.after, f.start⟩ :: after', ?_, ?_⟩
      · rw [← hscan'']
        simp only [List.append_assoc]
      · rw [List.map_cons, List.map_cons, hcontents', hcontents, hnew]
        rfl

/-- **A new value is not rewritten again**, nor is one that was left alone. -/
theorem newValue?_again (hplain : PlainPrefix s.urlPrefix) (cwd' : Option Path)
    (f : Css.Found) :
    (s.outcome cwd' sheet (s.newContent cwd sheet f).2).newValue? = none := by
  obtain ⟨-, hnone⟩ | ⟨r, hr, hkind, -, hnew⟩ := s.newContent_cases cwd sheet f
  · rw [s.newContent_of_none cwd sheet hnone, s.newValue?_outcome cwd' cwd]
    exact hnone
  · rw [hnew]
    exact newValue?_outcome_new (.inl hplain.head) hr _ s cwd' sheet

end Settings

/-- A url that may be put in quotes where it stands: CSS reads it as one and the file has its name
on one line, or it holds nothing that CSS could take for more than a word, wherever it stands. -/
inductive UrlReference.Legible (t : Text) (f : Css.Found) (r : UrlReference) : Prop
  | url {pre ts post : List Css.Token} (htokens : Css.tokens t = pre ++ (ts ++ post))
      (hplace : byteSize (Css.textOf pre) = f.start + r.start)
      (htext : Css.textOf ts = Css.urlAround r.inner) (hurl : Css.IsUrl ts)
      (hline : (OutputAsset.baseName r.raw).any Css.isNewline = false)
  | orderly (h : Css.Orderly r.inner)

namespace Stylesheet

variable {o : RewriteOptions} {pre : Text} {dir : Path}

/-- The text of a rewritten sheet is the text it was read from with its tokens replaced. -/
theorem edited_apply (hdir : o.dumpDir = some dir) (hpre : o.urlPrefix = some pre) {path : Path}
    {d : Disk} {text : Text}
    (hcomplete : (o.apply d (parse path text)).report.status = .complete) :
    Edited 0 ((Css.scan text).1.filterMap (Css.Found.tokenEdit? pre d.cwdPath? path)) text
      (o.apply d (parse path text)).sheet.render := by
  have hwalked := walked_apply o d (parse path text)
  have hfrom := hwalked.fromText (fromText_parse path text)
  have htext : (o.apply d (parse path text)).sheet.text = text := hwalked.found_eq.1
  have hedited := hfrom.render_spec.1
  rw [hfrom.edits_eq, htext, RewriteOptions.declarations_of_complete
    (hdir ▸ Option.some_ne_none dir) (hpre ▸ Option.some_ne_none pre) hcomplete,
    RewriteOptions.rewritten, declarations_parse, RewriteOptions.outcome_of_settings hdir hpre,
    List.map_map, List.map_map] at hedited
  refine edited_rewritten ⟨pre, dir⟩ d.cwdPath? path ?_
  rwa [List.zipWith_map_right, List.zipWith_self] at hedited

theorem parse_render_of_exchangeable (hdir : o.dumpDir = some dir) (hpre : o.urlPrefix = some pre)
    (hplain : PlainPrefix pre) {path : Path} {d : Disk} {text : Text}
    (hcomplete : (o.apply d (parse path text)).report.status = .complete)
    (hitems : ∀ f ∈ (Css.scan text).1,
      Settings.Exchangeable ⟨pre, dir⟩ d.cwdPath? path text f) :
    let a := o.apply d (parse path text)
    let again := parse path a.sheet.render
    StyleTree.declarations again = StyleTree.declarations a.sheet ∧
    ∀ d', (o.apply d' again).report.rewritten = 0 ∧ (o.apply d' again).disk = d' ∧
      (o.apply d' again).sheet.render = a.sheet.render := by
  intro a again
  have hedited := edited_apply hdir hpre hcomplete
  obtain ⟨items, hscan, hcontents⟩ :=
    (Settings.mk pre dir).contents_edited d.cwdPath? path [] [] rfl hitems hedited
  have hdeclarations : StyleTree.declarations again = (Css.scan text).1.map fun f =>
      let content := Settings.newContent ⟨pre, dir⟩ d.cwdPath? path f
      ⟨content.1, content.2⟩ := by
    have hrender : (Css.scan a.sheet.render).1 = items := hscan
    rw [declarations_parse, hrender]
    have h := congrArg (List.map fun content => Declaration.mk content.1 content.2) hcontents
    rwa [List.map_map, List.map_map] at h
  have hsettled (d' : Disk) : ∀ x ∈ StyleTree.declarations again,
      (Settings.outcome ⟨pre, dir⟩ d'.cwdPath? path x.value).newValue? = none := by
    rw [hdeclarations]
    intro x hx
    obtain ⟨f, -, rfl⟩ := List.mem_map.1 hx
    exact Settings.newValue?_again _ _ _ hplain _ f
  refine ⟨?_, fun d' => ?_⟩
  · rw [hdeclarations, RewriteOptions.declarations_of_complete (hdir ▸ Option.some_ne_none dir)
      (hpre ▸ Option.some_ne_none pre) hcomplete, RewriteOptions.rewritten, declarations_parse,
      RewriteOptions.outcome_of_settings hdir hpre, List.map_map]
    rfl
  · obtain ⟨-, ⟨skipped, hreport⟩, hdisk, hsame⟩ :=
      RewriteOptions.apply_of_settled hdir hpre d' again (hsettled d')
    exact ⟨congrArg Report.rewritten hreport, hdisk, (walked_apply o d' again).render_of_same hsame⟩

/-- **The output says what was written to it.** If every url of a file next to the sheet is read as
a url, the declarations of a rewritten text are the rewritten declarations, and rewriting the output
changes nothing. -/
theorem parse_render_apply (hpre : o.urlPrefix = some pre) (hplain : PlainPrefix pre) {path : Path}
    (hname : PlainName path) {d : Disk} {text : Text}
    (hcomplete : (o.apply d (parse path text)).report.status = .complete)
    (hurls : ∀ f ∈ (Css.scan text).1, ∀ r, UrlReference.extract f.value = .ok (some r) →
      r.kind = .localRelative → r.Legible text f) :
    let a := o.apply d (parse path text)
    let again := parse path a.sheet.render
    StyleTree.declarations again = StyleTree.declarations a.sheet ∧
    ∀ d', (o.apply d' again).report.rewritten = 0 ∧ (o.apply d' again).disk = d' ∧
      (o.apply d' again).sheet.render = a.sheet.render := by
  obtain ⟨dir, hdir⟩ : ∃ dir, o.dumpDir = some dir := by
    refine Option.ne_none_iff_exists'.1 fun hnone => ?_
    rw [(o.apply_of_missing d _ (.inl hnone)).2.2] at hcomplete
    cases hcomplete
  refine parse_render_of_exchangeable hdir hpre hplain hcomplete fun f hf r front hr hkind
    hfront hsize back => ?_
  rw [Settings.newToken_eq]
  cases hurls f hf r hr hkind with
  | @url pre ts post htokens hplace htext hurl hline =>
    obtain ⟨-, hclose⟩ := UrlReference.first?_of_extract hr
    have hfront' : front = Css.textOf pre := by
      obtain ⟨rest, hrest⟩ := hfront
      have htext : text = Css.textOf pre ++ Css.textOf (ts ++ post) := by
        rw [← Css.textOf_append, ← htokens, Css.textOf_tokens]
      exact (append_inj_of_byteSize (hrest.trans htext) (hsize.trans hplace.symm)).1
    rw [hfront']
    exact hurl.exchanges htokens htext (UrlReference.inner_of_kind hkind hclose)
      (UrlReference.inner_newUrl hplain hname hkind hclose (.inl rfl))
      (OutputAsset.no_newline_newUrl hplain hname (by simpa using hline)) back
  | orderly h => exact h.exchanges (UrlReference.orderly_newUrl hplain hname h) front back

theorem parse_render_apply_two_urls :
    let o : RewriteOptions :=
      { urlPrefix := some "/p".toList, dumpDir := some (.ofText "/d".toList) }
    let d : Disk := ⟨.empty, ⟨[], 0⟩, {}⟩
    let path : Path := .ofText "/s/a.css".toList
    let a := o.apply d (parse path "a\x7bb:x url(i;j.png);c:\"url(k.png)\"\x7d".toList)
    let again := parse path a.sheet.render
    StyleTree.declarations again = StyleTree.declarations a.sheet ∧
    ∀ d', (o.apply d' again).report.rewritten = 0 ∧ (o.apply d' again).disk = d' ∧
      (o.apply d' again).sheet.render = a.sheet.render := by
  intro o d path a again
  have hstatus : a.report.status = .complete := by
    obtain ⟨⟨herror, -⟩, -⟩ | ⟨-, hcomplete, -⟩ := o.apply_spec d
      (parse path "a\x7bb:x url(i;j.png);c:\"url(k.png)\"\x7d".toList)
      (Option.some_ne_none _) (Option.some_ne_none _)
    · cases herror
    · exact hcomplete
  have hname : PlainName path := ⟨_, rfl, by decide +kernel, by decide +kernel⟩
  refine parse_render_apply rfl ⟨rfl, by decide⟩ hname hstatus ?_
  have hscan : (Css.scan "a\x7bb:x url(i;j.png);c:\"url(k.png)\"\x7d".toList).1 =
      [⟨"b".toList, "x url(i;j.png)".toList, 4⟩, ⟨"c".toList, "\"url(k.png)\"".toList, 21⟩] := by
    decide +kernel
  intro f hf r hr hkind
  rw [hscan] at hf
  obtain rfl | rfl : f = _ ∨ f = _ := by simpa using hf
  · have hfound : UrlReference.extract "x url(i;j.png)".toList =
        .ok (some ⟨"x ".toList, "i;j.png".toList, []⟩) := by decide +kernel
    obtain rfl := Option.some.inj (Except.ok.inj (hfound.symm.trans hr))
    have htokens : Css.tokens "a\x7bb:x url(i;j.png);c:\"url(k.png)\"\x7d".toList =
        [⟨.plain, ['a']⟩, ⟨.opening .curly, ['\x7b']⟩, ⟨.plain, ['b']⟩, ⟨.colon, [':']⟩,
          ⟨.plain, ['x']⟩, ⟨.blank, [' ']⟩] ++ ([⟨.plain, "url(i;j.png)".toList⟩] ++
        [⟨.semicolon, [';']⟩, ⟨.plain, ['c']⟩, ⟨.colon, [':']⟩,
          ⟨.plain, "\"url(k.png)\"".toList⟩, ⟨.closing .curly, ['\x7d']⟩]) := by
      decide +kernel
    exact .url htokens (by decide) (by decide) (.plain rfl) (by decide +kernel)
  · have hfound : UrlReference.extract "\"url(k.png)\"".toList =
        .ok (some ⟨['"'], "k.png".toList, ['"']⟩) := by decide +kernel
    obtain rfl := Option.some.inj (Except.ok.inj (hfound.symm.trans hr))
    exact .orderly (.bare (by decide +kernel))

/-- A url within quotes is torn out of them, and a semicolon in it ends the declaration. -/
theorem parse_render_apply_quoted :
    let o : RewriteOptions :=
      { urlPrefix := some "/p".toList, dumpDir := some (.ofText "/d".toList) }
    let d : Disk := ⟨.empty, ⟨[], 0⟩, {}⟩
    let path : Path := .ofText "/s/a.css".toList
    let a := o.apply d (parse path ".a\x7bcontent:\"url(a;b.png)\"\x7d".toList)
    PlainPrefix "/p".toList ∧ PlainName path ∧ a.report.status = .complete ∧
      StyleTree.declarations a.sheet =
        [⟨"content".toList, "\"url(\"/p/a_dumped_a;b.png\")\"".toList⟩] ∧
      StyleTree.declarations (parse path a.sheet.render) =
        [⟨"content".toList, "\"url(\"/p/a_dumped_a".toList⟩] := by
  intro o d path a
  have hstatus : a.report.status = .complete := by
    obtain ⟨⟨herror, -⟩, -⟩ | ⟨-, hcomplete, -⟩ :=
      o.apply_spec d (parse path ".a\x7bcontent:\"url(a;b.png)\"\x7d".toList)
        (Option.some_ne_none _) (Option.some_ne_none _)
    · cases herror
    · exact hcomplete
  have hrender : a.sheet.render = ".a\x7bcontent:\"url(\"/p/a_dumped_a;b.png\")\"\x7d".toList := by
    have hedited := edit?_eq_some_iff.2 (edited_apply rfl rfl hstatus)
    refine Option.some.inj (hedited.symm.trans ?_)
    decide +kernel
  refine ⟨⟨rfl, by decide⟩, ⟨_, rfl, by decide +kernel, by decide +kernel⟩, hstatus, ?_, ?_⟩
  · rw [RewriteOptions.declarations_of_complete (Option.some_ne_none _) (Option.some_ne_none _)
      hstatus]
    decide +kernel
  · rw [hrender, declarations_parse]
    decide +kernel

end Stylesheet

end StyleAssets
