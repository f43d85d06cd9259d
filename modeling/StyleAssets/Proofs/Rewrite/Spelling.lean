import StyleAssets.Proofs.Rewrite.Contained
import StyleAssets.Proofs.Url.Leftmost

/-!
# The spelling of urls

Quotes and blanks around a url do not belong to it. So what is written in quotes is read back as it
is, and it does not matter how a stylesheet spells its urls.

* `BareUrl` — a url as such, and `UrlReference.raw_of_spelling`: it is all that counts of what
  stands between the parentheses.
* `RewriteOptions.read_back` — a new value holds the url of the copy, in the place of the old url.
* `RewriteOptions.process_spelling` — quotes and blanks around a url change nothing.
-/

namespace StyleAssets

open Text

/-- Nothing that could end a url or its quotes. -/
structure NoDelimiter (t : Text) : Prop where
  close : ')' ∉ t
  double : '"' ∉ t
  single : '\'' ∉ t

/-- A url as such: some text without quotes, a `)`, and blanks at its ends. -/
structure BareUrl (url : Text) : Prop extends NoDelimiter url where
  ne_nil : url ≠ []
  trimmed : Trimmed url

/-- Blanks and quotes only. -/
def IsPadding (w : Text) : Prop := ∀ c ∈ w, isBlank c = true ∨ UrlReference.isQuote c = true

theorem IsPadding.append {v w : Text} (hv : IsPadding v) (hw : IsPadding w) :
    IsPadding (v ++ w) :=
  fun c hc => (List.mem_append.1 hc).elim (hv c) (hw c)

theorem isPadding_of_blank {w : Text} (h : ∀ c ∈ w, isBlank c = true) : IsPadding w :=
  fun c hc => .inl (h c hc)

theorem isPadding_quote {quote : Text} (h : quote ∈ [[], ['"'], ['\'']]) : IsPadding quote := by
  intro c hc
  simp only [List.mem_cons, List.not_mem_nil, or_false] at h
  obtain rfl | rfl | rfl := h
  · cases hc
  · exact .inr (List.mem_singleton.1 hc ▸ rfl)
  · exact .inr (List.mem_singleton.1 hc ▸ rfl)

namespace UrlReference

variable {r : UrlReference} {value url lead trail before after : Text}

theorem filter_noDelimiter (h : NoDelimiter url) : url.filter (!isQuote ·) = url := by
  refine List.filter_eq_self.2 fun c hc => ?_
  have hdouble : c ≠ '"' := fun heq => h.double (heq ▸ hc)
  have hsingle : c ≠ '\'' := fun heq => h.single (heq ▸ hc)
  simp [isQuote, hdouble, hsingle]

theorem noDelimiter_raw (hclose : ')' ∉ r.inner) : NoDelimiter r.raw where
  close hmem := hclose (mem_raw hmem).1
  double hmem := Bool.noConfusion (mem_raw hmem).2
  single hmem := Bool.noConfusion (mem_raw hmem).2

/-- Without its quotes padding is blank. -/
theorem isBlank_of_isPadding {w : Text} (h : IsPadding w) :
    ∀ c ∈ w.filter (!isQuote ·), isBlank c = true := by
  intro c hc
  obtain ⟨hmem, hquote⟩ := List.mem_filter.1 hc
  exact (h c hmem).resolve_right (by simpa using hquote)

/-- **Quotes and blanks around a url do not belong to it.** -/
theorem raw_of_spelling (h : BareUrl url) (hlead : IsPadding lead) (htrail : IsPadding trail)
    (hinner : r.inner = lead ++ url ++ trail) : r.raw = url := by
  have hstart : trimStart (lead.filter (!isQuote ·)) = [] :=
    List.dropWhile_eq_nil_iff.2 (isBlank_of_isPadding hlead)
  have hend : trimEnd (trail.filter (!isQuote ·)) = [] :=
    List.rdropWhile_eq_nil_iff.2 (isBlank_of_isPadding htrail)
  rw [r.raw_around h.trimmed h.ne_nil (filter_noDelimiter h.toNoDelimiter) hinner, hstart, hend,
    List.append_nil, List.nil_append]

/-- Padding around a url does not end the token. -/
theorem not_mem_spelling (h : BareUrl url) (hlead : IsPadding lead) (htrail : IsPadding trail) :
    ')' ∉ lead ++ url ++ trail := by
  have hpadding : ∀ {w}, IsPadding w → ')' ∉ w := by
    intro w hw hmem
    obtain hblank | hquote := hw _ hmem
    · cases hblank
    · cases hquote
  simp only [List.mem_append, not_or]
  exact ⟨⟨hpadding hlead, h.close⟩, hpadding htrail⟩

/-- A padded url is found where the search finds it. -/
theorem extract_spelling (h : BareUrl url) (hlead : IsPadding lead) (htrail : IsPadding trail)
    (hfirst : first? value = some ⟨before, lead ++ url ++ trail, after⟩) :
    extract value = .ok (some ⟨before, lead ++ url ++ trail, after⟩) ∧
      raw ⟨before, lead ++ url ++ trail, after⟩ = url := by
  have hraw := raw_of_spelling (r := ⟨before, lead ++ url ++ trail, after⟩) h hlead htrail rfl
  rw [extract_of_first? hfirst, hraw, if_neg (by simpa using h.ne_nil)]
  exact ⟨rfl, rfl⟩

/-- A url in quotes takes the place of the first one. -/
theorem extract_quoted (h : extract value = .ok (some r)) (hurl : BareUrl url) :
    extract (r.before ++ Css.urlAround ('"' :: url ++ ['"']) ++ r.after) =
        .ok (some ⟨r.before, '"' :: url ++ ['"'], r.after⟩) ∧
      raw ⟨r.before, '"' :: url ++ ['"'], r.after⟩ = url := by
  obtain ⟨hfirst, -⟩ := first?_of_extract h
  have hquote : IsPadding ['"'] := isPadding_quote (by simp)
  rw [eq_urlAround_of_extract h] at hfirst
  exact extract_spelling hurl hquote hquote
    (first?_replace (List.cons_ne_nil _ _) (not_mem_spelling hurl hquote hquote) hfirst)

/-- The first `url(` of a text starts the first token, if one starts there. -/
theorem first?_of_only {inner : Text} (hne : inner ≠ []) (hclose : ')' ∉ inner)
    (honly : ∀ b a, before ++ opening = b ++ opening ++ a → a = []) :
    first? (before ++ opening ++ inner ++ [')'] ++ after) = some ⟨before, inner, after⟩ := by
  refine first?_eq_some_iff.2 ⟨by simp [UrlReference.value], hne, hclose, ?_⟩
  rintro i ⟨b, c, rest, htext, rfl, -, -⟩
  by_contra hlt
  have hsize : byteSize (b ++ opening) ≤ byteSize (before ++ opening) := by
    simp only [byteSize_append, start] at hlt ⊢
    omega
  rw [List.append_assoc (before ++ opening), List.append_assoc (before ++ opening)] at htext
  obtain ⟨a, hbefore, -⟩ := exists_between_of_append_eq htext.symm hsize
  have hsame := congrArg byteSize hbefore
  simp only [honly b a hbefore, byteSize_append, byteSize_nil, start] at hsame hlt
  omega

end UrlReference

/-- What becomes of a value is told by its first url and by what stands before and after it. -/
theorem Settings.outcome_congr {s : Settings} {cwd : Option Path} {sheet : Path}
    {value value' : Text} {r r' : UrlReference} (h : UrlReference.extract value = .ok (some r))
    (h' : UrlReference.extract value' = .ok (some r')) (hbefore : r.before = r'.before)
    (hraw : r.raw = r'.raw) (hafter : r.after = r'.after) :
    s.outcome cwd sheet value = s.outcome cwd sheet value' := by
  have hkind : r.kind = r'.kind := by rw [UrlReference.kind, UrlReference.kind, hraw]
  simp only [outcome, h, h', hkind, hbefore, hraw, hafter]

/-- A value with a url is skipped for what the url is, or rewritten. -/
theorem Settings.outcome_cases (s : Settings) (cwd : Option Path) (sheet : Path) {value : Text}
    {r : UrlReference} (h : UrlReference.extract value = .ok (some r)) :
    s.outcome cwd sheet value ∈ [.skip (.dataUri r.raw), .skip (.absolute r.raw),
        .skip (.externalProtocol r.raw)] ∨
      ∃ new job, s.outcome cwd sheet value = .rewrite r.raw new job := by
  simp only [outcome, h]
  cases r.kind with
  | dataUri => exact .inl (by simp)
  | absolute => exact .inl (by simp)
  | externalProtocol => exact .inl (by simp)
  | localRelative => exact .inr ⟨_, _, rfl⟩

namespace OutputAsset

theorem mem_name {cwd : Option Path} {sheet : Path} {url : Text} {c : Char}
    (h : c ∈ (derive cwd sheet url).name) : c ∈ stem sheet ∨ c ∈ infixText ∨ c ∈ url := by
  simp only [derive, List.mem_append, or_assoc] at h
  exact h.imp_right (Or.imp_right fun hbase => baseName_subset url hbase)

/-- The url of a copy holds nothing that could end it, given what the prefix and the name of the
sheet hold. -/
theorem noDelimiter_new {pre : Text} {cwd : Option Path} {sheet : Path} {url : Text}
    (hplain : NoDelimiter (pre ++ stem sheet)) (hurl : NoDelimiter url) :
    NoDelimiter (pre ++ '/' :: (derive cwd sheet url).name) := by
  have hnot : ∀ {d}, d ∉ pre ++ stem sheet → d ≠ '/' → d ∉ infixText → d ∉ url →
      d ∉ pre ++ '/' :: (derive cwd sheet url).name := by
    intro d hplain hslash hinfix hurl hmem
    obtain hpre | hmem := List.mem_append.1 hmem
    · exact hplain (List.mem_append_left _ hpre)
    · obtain hstem | hmem | hmem := mem_name ((List.mem_cons.1 hmem).resolve_left hslash)
      · exact hplain (List.mem_append_right _ hstem)
      · exact hinfix hmem
      · exact hurl hmem
  exact ⟨hnot hplain.close (by decide) (by decide) hurl.close,
    hnot hplain.double (by decide) (by decide) hurl.double,
    hnot hplain.single (by decide) (by decide) hurl.single⟩

/-- What ends in the name of a file has no blank at its end. -/
theorem trimmed_append_baseName {lead url : Text} (hne : lead ≠ [])
    (hblank : ∀ c ∈ lead.head?, isBlank c = false) (hurl : Url.hasExtension url = true) :
    Trimmed (lead ++ baseName url) := by
  obtain ⟨d, hlast, hd⟩ := Url.getLast?_of_hasExtension hurl
  constructor
  · rwa [List.head?_append_of_ne_nil _ hne]
  · intro c hc
    rw [List.getLast?_append, getLast?_baseName hlast hd] at hc
    cases hc
    exact isBlank_of_isAlphanum hd

theorem trimmed_new {pre : Text} {cwd : Option Path} {sheet : Path} {url : Text}
    (hblank : ∀ c ∈ pre.head?, isBlank c = false) (hurl : Url.hasExtension url = true) :
    Trimmed (pre ++ '/' :: (derive cwd sheet url).name) := by
  have hsplit : pre ++ '/' :: (derive cwd sheet url).name =
      (pre ++ '/' :: (stem sheet ++ infixText)) ++ baseName url := by simp [derive]
  rw [hsplit]
  refine trimmed_append_baseName (by simp) (fun c hc => ?_) hurl
  cases pre with
  | nil =>
    cases hc
    rfl
  | cons p pre => exact hblank c hc

end OutputAsset

namespace RewriteOptions

/-- **A new value is read back.** If neither the prefix nor the stem of the sheet holds a `)` or a
quote and the prefix does not start with a blank, then the url of a new value is the prefix with the
name of the copy, its token starts where the old one did, and what stands before and after the token
is what stood there before. -/
theorem read_back {o : RewriteOptions} {cwd : Option Path} {sheet : Path}
    {pre raw value : Text} {x : Declaration} {job : CopyJob} (hpre : o.urlPrefix = some pre)
    (hplain : NoDelimiter (pre ++ OutputAsset.stem sheet))
    (hblank : ∀ c ∈ pre.head?, isBlank c = false)
    (h : o.process cwd sheet x = .ok (.rewrite raw value job)) :
    ∃ old new name, UrlReference.extract x.value = .ok (some old) ∧
      UrlReference.extract value = .ok (some new) ∧
      job.target.fileName? = some (Utf8.encode name) ∧ new.raw = pre ++ '/' :: name ∧
      new.start = old.start ∧
      ∃ head token newToken tail, x.value = head ++ token ++ tail ∧
        value = head ++ newToken ++ tail ∧
        old.start = byteSize head ∧ old.stop = byteSize (head ++ token) ∧
        new.stop = byteSize (head ++ newToken) := by
  obtain ⟨s, -, hdir, -⟩ := process_eq_ok h
  rw [process_of_settings hdir hpre] at h
  obtain ⟨r, hextract, hkind, rfl, rfl, rfl⟩ := Settings.outcome_eq_rewrite (Except.ok.inj h)
  obtain ⟨-, hclose⟩ := UrlReference.first?_of_extract hextract
  have hextension := Url.hasExtension_of_kind hkind
  have hurl : BareUrl (pre ++ '/' :: (OutputAsset.derive cwd sheet r.raw).name) :=
    { OutputAsset.noDelimiter_new hplain (UrlReference.noDelimiter_raw hclose) with
      ne_nil := by simp
      trimmed := OutputAsset.trimmed_new hblank hextension }
  have hname := OutputAsset.isStep_name cwd sheet hextension
  have hfile := Path.fileName?_of_components (Path.components_join_name s.dumpDir hname)
  obtain ⟨hnew, hraw⟩ := UrlReference.extract_quoted hextract hurl
  rw [Settings.newToken_eq]
  refine ⟨r, _, _, hextract, hnew, hfile, hraw, rfl, r.before, _, _, r.after,
    (UrlReference.value_of_extract hextract).symm, rfl, rfl, ?_, ?_⟩
  · rw [byteSize_append]
    rfl
  · rw [byteSize_append]
    rfl

/-- A url in other quotes, behind one that is closed at once, and a prefix without any text. -/
theorem read_back_empty_prefix :
    let o : RewriteOptions := ⟨some [], some (.ofString "/d/"), .warn⟩
    let x : Declaration := ⟨['b'], "url() é url( 'x/y.png ) z".toList⟩
    ∃ old new name job, o.process none (.ofString "t/a b.css") x =
        .ok (.rewrite "x/y.png".toList "url() é url(\"/a b_dumped_y.png\") z".toList job) ∧
      UrlReference.extract x.value = .ok (some old) ∧
      UrlReference.extract "url() é url(\"/a b_dumped_y.png\") z".toList = .ok (some new) ∧
      job.target.fileName? = some (Utf8.encode name) ∧ new.raw = '/' :: name ∧
      new.start = old.start := by
  intro o x
  have hprocess : o.process none (.ofString "t/a b.css") x =
      .ok (.rewrite "x/y.png".toList "url() é url(\"/a b_dumped_y.png\") z".toList
        ⟨.ofString "t/x/y.png", .ofString "/d/a b_dumped_y.png"⟩) := by decide +kernel
  have hpre : o.urlPrefix = some [] := rfl
  obtain ⟨old, new, name, hold, hnew, hfile, hraw, hstart, -⟩ :=
    read_back hpre ⟨by decide +kernel, by decide +kernel, by decide +kernel⟩ nofun hprocess
  exact ⟨old, new, name, _, hprocess, hold, hnew, hfile, hraw, hstart⟩

/-! ## Other spellings -/

/-- **The spelling of a url does not matter.** Quotes and blanks around the first url of a value
change nothing about what becomes of the value: it is skipped for the same reason, or gets the same
new value with the same copy. -/
theorem process_spelling (o : RewriteOptions) (cwd : Option Path) (sheet : Path)
    (property after : Text) {url before quote w₁ w₂ w₃ w₄ : Text} (hurl : BareUrl url)
    (honly : ∀ b a, before ++ "url(".toList = b ++ "url(".toList ++ a → a = [])
    (hquote : quote ∈ [[], ['"'], ['\'']])
    (hblank : ∀ w ∈ [w₁, w₂, w₃, w₄], ∀ c ∈ w, isBlank c = true) :
    let outcome (inner : Text) := o.process cwd sheet
      ⟨property, before ++ "url(".toList ++ inner ++ ")".toList ++ after⟩
    outcome (w₁ ++ quote ++ w₂ ++ url ++ w₃ ++ quote ++ w₄) = outcome url ∧
      ∀ result, outcome url = .ok result →
        result ∈ [.skip (.dataUri url), .skip (.absolute url), .skip (.externalProtocol url)] ∨
          ∃ value job, result = .rewrite url value job := by
  intro outcome
  have hpadding {v w : Text} (hv : v ∈ [w₁, w₂, w₃, w₄]) (hw : w ∈ [w₁, w₂, w₃, w₄]) :
      IsPadding (v ++ quote ++ w) :=
    ((isPadding_of_blank (hblank v hv)).append (isPadding_quote hquote)).append
      (isPadding_of_blank (hblank w hw))
  have hlead : IsPadding (w₁ ++ quote ++ w₂) := hpadding (by simp) (by simp)
  have htrail : IsPadding (w₃ ++ quote ++ w₄) := hpadding (by simp) (by simp)
  have hfound {lead trail : Text} (hlead : IsPadding lead) (htrail : IsPadding trail) :
      UrlReference.extract
          (before ++ "url(".toList ++ (lead ++ url ++ trail) ++ ")".toList ++ after) =
        .ok (some ⟨before, lead ++ url ++ trail, after⟩) ∧
      UrlReference.raw ⟨before, lead ++ url ++ trail, after⟩ = url :=
    UrlReference.extract_spelling hurl hlead htrail
      (UrlReference.first?_of_only (by simp [hurl.ne_nil])
        (UrlReference.not_mem_spelling hurl hlead htrail) honly)
  have hnone : IsPadding [] := isPadding_quote (by simp)
  obtain ⟨hpadded, hraw'⟩ := hfound hlead htrail
  obtain ⟨hplain, hraw⟩ := hfound hnone hnone
  rw [List.nil_append, List.append_nil] at hplain hraw
  refine ⟨?_, fun result hresult => ?_⟩
  · have hinner : w₁ ++ quote ++ w₂ ++ url ++ w₃ ++ quote ++ w₄ =
        w₁ ++ quote ++ w₂ ++ url ++ (w₃ ++ quote ++ w₄) := by simp only [List.append_assoc]
    simp only [outcome, process, hinner,
      Settings.outcome_congr hpadded hplain rfl (hraw'.trans hraw.symm) rfl]
  · obtain ⟨s, -, -, rfl⟩ := process_eq_ok hresult
    have hcases := s.outcome_cases cwd sheet hplain
    rwa [hraw] at hcases

/-- Blanks, a quote and more blanks around a url, behind another one in capitals. -/
theorem process_spelling_padded :
    let o : RewriteOptions := ⟨some "/p".toList, some (.ofString "/d"), .warn⟩
    let value := "URL(x) url(\n' \u00a0a b.png\t '\u3000) url(c.png)".toList
    o.process none (.ofString "s.css") ⟨[], value⟩ =
        .ok (.rewrite "a b.png".toList
          "URL(x) url(\"/p/s_dumped_a b.png\") url(c.png)".toList
          ⟨.ofString "a b.png", .ofString "/d/s_dumped_a b.png"⟩) := by
  intro o value
  have hurl : BareUrl "a b.png".toList :=
    { close := by decide
      double := by decide
      single := by decide
      ne_nil := by decide
      trimmed := by constructor <;> intro c hc <;> cases hc <;> rfl }
  have honly : ∀ b a, "URL(x) ".toList ++ "url(".toList = b ++ "url(".toList ++ a → a = [] := by
    intro b a h
    rcases List.eq_nil_or_concat a with rfl | ⟨init, c, rfl⟩
    · rfl
    · rw [List.concat_eq_append, ← List.append_assoc] at h
      have hends : "URL(x) url".toList ++ ['('] = b ++ "url(".toList ++ init ++ [c] := h
      have hnone : ¬"url(".toList <:+: "URL(x) url".toList := by decide
      exact absurd ⟨b, init, (List.append_inj' hends rfl).1.symm⟩ hnone
  have hblank : ∀ w ∈ [['\n'], [' ', '\u00a0'], ['\t', ' '], ['\u3000']],
      ∀ c ∈ w, isBlank c = true := by
    simp [isBlank]
  have hplain : o.process none (.ofString "s.css")
      ⟨[], "URL(x) url(a b.png) url(c.png)".toList⟩ =
        .ok (.rewrite "a b.png".toList
          "URL(x) url(\"/p/s_dumped_a b.png\") url(c.png)".toList
          ⟨.ofString "a b.png", .ofString "/d/s_dumped_a b.png"⟩) := by decide +kernel
  have hquote : ['\''] ∈ [[], ['"'], ['\'']] := by simp
  obtain ⟨hsame, -⟩ :=
    process_spelling o none (.ofString "s.css") [] " url(c.png)".toList hurl honly hquote hblank
  exact hsame.trans hplain

end RewriteOptions

end StyleAssets
