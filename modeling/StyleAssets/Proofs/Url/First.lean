import StyleAssets.Proofs.Css.UrlForm
import StyleAssets.Proofs.Text.Trim
import StyleAssets.Proofs.Url.Reference
import StyleAssets.Rewrite.Outcome

/-!
# The first token of a value

Another url may take the place of the first one. It is then found where the first one was, whatever
it holds: no token starts earlier than before, and the new one ends at its first `)`.

* `UrlReference.token?_eq_some_iff`, `UrlReference.isSome_token?` — when a text starts with a token.
* `UrlReference.first?_replace` — the first token of a value that has another url in it.
* `UrlReference.exists_extract_quoted` — the same for a url in quotes; `UrlReference.leads_away`
  says that it names no file next to the sheet if it starts at the root or at a host.
-/

namespace StyleAssets

open Text

/-! ## Texts that occur in others -/

theorem Text.includes_iff {part t : Text} :
    includes part t = true ↔ ∃ before after, t = before ++ part ++ after := by
  constructor
  · intro h
    induction t with
    | nil =>
      obtain rfl : part = [] := List.isEmpty_iff.1 h
      exact ⟨[], [], rfl⟩
    | cons c t ih =>
      rw [includes, Bool.or_eq_true] at h
      obtain h | h := h
      · obtain ⟨after, hafter⟩ := List.isPrefixOf_iff_prefix.1 h
        exact ⟨[], after, hafter.symm⟩
      · obtain ⟨before, after, ht⟩ := ih h
        exact ⟨c :: before, after, by rw [ht, List.cons_append, List.cons_append]⟩
  · rintro ⟨before, after, rfl⟩
    induction before with
    | nil => cases part <;> cases after <;> simp [includes]
    | cons c before ih => rw [List.cons_append, List.cons_append, includes, ih, Bool.or_true]

theorem Text.includes_iff_infix {part t : Text} : includes part t = true ↔ part <:+: t := by
  rw [includes_iff]
  exact ⟨fun ⟨before, after, h⟩ => ⟨before, after, h.symm⟩,
    fun ⟨before, after, h⟩ => ⟨before, after, h.symm⟩⟩

namespace UrlReference

variable {r : UrlReference} {value before inner inner' after after' : Text}

/-! ## Where a token starts -/

theorem token?_eq_some_iff {t inner after : Text} : token? t = some (inner, after) ↔
    t = opening ++ inner ++ [')'] ++ after ∧ inner ≠ [] ∧ ')' ∉ inner := by
  refine ⟨token?_spec, ?_⟩
  rintro ⟨rfl, hne, hclose⟩
  have hall : ∀ c ∈ inner, (c != ')') = true := by
    intro c hc
    exact bne_iff_ne.2 fun heq => hclose (heq ▸ hc)
  obtain ⟨c, more, hinner⟩ := List.exists_cons_of_ne_nil hne
  have hrest : opening.isPrefixOf? (opening ++ inner ++ [')'] ++ after) =
      some (inner ++ ')' :: after) := by
    rw [List.isPrefixOf?_eq_some_iff_append_eq]
    simp
  have htake : (inner ++ ')' :: after).takeWhile (· != ')') = inner := by
    rw [List.takeWhile_append_of_pos hall]
    simp
  have hdrop : (inner ++ ')' :: after).dropWhile (· != ')') = ')' :: after := by
    rw [List.dropWhile_append_of_pos hall]
    simp
  rw [token?, hrest]
  simp only [Option.bind_eq_bind, Option.bind_some, htake, hdrop]
  rw [hinner]

/-- A text starts a token if a parenthesis follows, but not at once. -/
theorem isSome_token? {t : Text} : (token? t).isSome = true ↔
    ∃ rest, t = opening ++ rest ∧ rest.head? ≠ some ')' ∧ ')' ∈ rest := by
  constructor
  · intro h
    obtain ⟨⟨inner, after⟩, htoken⟩ := Option.isSome_iff_exists.1 h
    obtain ⟨rfl, hne, hclose⟩ := token?_spec htoken
    obtain ⟨c, more, rfl⟩ := List.exists_cons_of_ne_nil hne
    refine ⟨c :: more ++ [')'] ++ after, by simp, fun hhead => ?_, by simp⟩
    cases hhead
    exact hclose List.mem_cons_self
  · rintro ⟨rest, rfl, hhead, hmem⟩
    obtain ⟨inner, after, rfl, hinner⟩ := List.eq_append_cons_of_mem hmem
    have htoken : token? (opening ++ (inner ++ ')' :: after)) = some (inner, after) := by
      refine token?_eq_some_iff.2 ⟨by simp, fun hnil => hhead ?_, hinner⟩
      rw [hnil]
      rfl
    rw [htoken]
    rfl

/-- The first token is extracted, unless nothing is left of it without quotes and blanks. -/
theorem extract_of_first? (h : first? value = some r) :
    extract value = if r.raw.isEmpty then .error ⟨value⟩ else .ok (some r) := by
  have hincludes : includes opening value = true := by
    refine includes_iff.2 ⟨r.before, r.inner ++ [')'] ++ r.after, ?_⟩
    rw [← value_of_first? h, UrlReference.value]
    simp only [List.append_assoc]
  rw [extract, hincludes, h]
  rfl

theorem first?_of_extract (h : extract value = .ok (some r)) :
    first? value = some r ∧ ')' ∉ r.inner := by
  have hfirst : first? value = some r := by
    unfold extract at h
    split at h
    · cases h
    · split at h
      · cases h
      · rename_i hfirst
        split at h
        · cases h
        · cases h
          exact hfirst
  refine ⟨hfirst, ?_⟩
  clear h
  induction value generalizing r with
  | nil => cases hfirst
  | cons c value ih =>
    rw [first?] at hfirst
    split at hfirst
    · rename_i htoken
      cases hfirst
      exact (token?_spec htoken).2.2
    · obtain ⟨r', hr', rfl⟩ := Option.map_eq_some_iff.1 hfirst
      exact ih (r := r') hr'

theorem eq_urlAround_of_extract (h : extract value = .ok (some r)) :
    value = r.before ++ Css.urlAround r.inner ++ r.after := by
  rw [← value_of_extract h]
  simp [UrlReference.value, opening, Css.urlAround]

/-! ## Another url in a value -/

/-- What starts no token before a url starts none before another one. -/
theorem token?_replace (hne : before ≠ [])
    (h : token? (before ++ Css.urlAround inner ++ after) = none) :
    token? (before ++ Css.urlAround inner' ++ after') = none := by
  rw [← Option.not_isSome_iff_eq_none, isSome_token?] at h ⊢
  rintro ⟨rest, htext, hhead, -⟩
  refine h ?_
  -- the opening lies before the url, for no two openings overlap
  obtain ⟨more, rfl⟩ : ∃ more, before = opening ++ more := by
    match before, hne with
    | [a], _ => simp [Css.urlAround, opening] at htext
    | [a, b], _ => simp [Css.urlAround, opening] at htext
    | [a, b, c], _ => simp [Css.urlAround, opening] at htext
    | a :: b :: c :: e :: more, _ =>
      simp [opening] at htext
      exact ⟨more, by simp [opening, htext]⟩
  have hrest : rest = more ++ Css.urlAround inner' ++ after' := by
    simpa using htext.symm
  refine ⟨more ++ Css.urlAround inner ++ after, by simp, ?_, by simp [Css.urlAround]⟩
  rw [hrest] at hhead
  cases more with
  | nil => simp [Css.urlAround]
  | cons c more => exact hhead

theorem first?_replace (hne : inner' ≠ []) (hclose : ')' ∉ inner')
    (h : first? (before ++ Css.urlAround inner ++ after) = some ⟨before, inner, after⟩) :
    first? (before ++ Css.urlAround inner' ++ after') = some ⟨before, inner', after'⟩ := by
  induction before with
  | nil =>
    have htoken : token? ([] ++ Css.urlAround inner' ++ after') = some (inner', after') :=
      token?_eq_some_iff.2 ⟨by simp [Css.urlAround, opening], hne, hclose⟩
    rw [List.nil_append] at htoken ⊢
    rw [Css.urlAround, List.cons_append, List.cons_append] at htoken ⊢
    rw [first?, htoken]
  | cons c before ih =>
    rw [List.cons_append, List.cons_append, first?] at h
    rw [List.cons_append, List.cons_append, first?]
    split at h
    · cases h
    · rename_i hnone
      have hnone' : token? (c :: (before ++ Css.urlAround inner' ++ after')) = none :=
        token?_replace (List.cons_ne_nil c before) hnone
      obtain ⟨r, hr, hsame⟩ := Option.map_eq_some_iff.1 h
      obtain ⟨before', inner₁, after₁⟩ := r
      cases hsame
      rw [hnone', ih hr]
      rfl

/-! ## A url in quotes -/

/-- What is found of a url in quotes: a `)` in it ends it early. -/
def quotedInner (url : Text) : Text := '"' :: (url ++ ['"']).takeWhile (· != ')')

theorem not_mem_quotedInner (url : Text) : ')' ∉ quotedInner url := by
  intro hmem
  obtain hquote | hmem := List.mem_cons.1 hmem
  · cases hquote
  · simpa using List.mem_takeWhile_imp hmem

/-- A url in quotes is one up to its first `)`, with more text behind it. -/
theorem urlAround_quoted (url after : Text) :
    ∃ after', Css.urlAround ('"' :: url ++ ['"']) ++ after =
      Css.urlAround (quotedInner url) ++ after' := by
  have hsplit := List.takeWhile_append_dropWhile (p := (· != ')')) (l := url ++ ['"'])
  cases hdrop : (url ++ ['"']).dropWhile (· != ')') with
  | nil =>
    rw [hdrop, List.append_nil] at hsplit
    exact ⟨after, by rw [quotedInner, hsplit, List.cons_append]⟩
  | cons c rest =>
    have hclose := List.head?_dropWhile_not (· != ')') (url ++ ['"'])
    rw [hdrop] at hclose
    have hc : c = ')' := by simpa using hclose
    rw [hdrop, hc] at hsplit
    refine ⟨rest ++ ')' :: after, ?_⟩
    rw [List.cons_append, ← hsplit]
    simp [Css.urlAround, quotedInner]

/-- **A url in quotes is found** where it was put in the place of the first one, unless it is
blank. -/
theorem exists_extract_quoted (h : extract value = .ok (some r)) (url : Text) :
    ∃ after', let found : UrlReference := ⟨r.before, quotedInner url, after'⟩
      found.raw.isEmpty = false →
        extract (r.before ++ Css.urlAround ('"' :: url ++ ['"']) ++ r.after) =
          .ok (some found) := by
  obtain ⟨hfirst, -⟩ := first?_of_extract h
  rw [eq_urlAround_of_extract h] at hfirst
  obtain ⟨after', hafter⟩ := urlAround_quoted url r.after
  refine ⟨after', fun hblank => ?_⟩
  have hnew : first? (r.before ++ Css.urlAround (quotedInner url) ++ after') =
      some ⟨r.before, quotedInner url, after'⟩ :=
    first?_replace (List.cons_ne_nil _ _) (not_mem_quotedInner url) hfirst
  rw [List.append_assoc, hafter, ← List.append_assoc, extract_of_first? hnew,
    if_neg (by simp [hblank])]

/-- A url that starts at the root, or with a host before any parenthesis. -/
def LeadsAway (url : Text) : Prop :=
  url.head? = some '/' ∨ includes [':', '/', '/'] (url.takeWhile (· != ')')) = true

theorem mem_raw {c : Char} (h : c ∈ r.raw) : c ∈ r.inner ∧ isQuote c = false := by
  have hmem : c ∈ r.inner.filter (!isQuote ·) := by
    obtain ⟨trail, htrail, -⟩ := exists_trail (r.inner.filter (!isQuote ·))
    rw [htrail]
    exact List.mem_append_left _ (List.mem_append_right _ h)
  obtain ⟨hinner, hquote⟩ := List.mem_filter.1 hmem
  exact ⟨hinner, by simpa using hquote⟩

/-- What stands in a url without quotes and blanks stands in what is made of it. -/
theorem raw_around {x m y : Text} (hm : Trimmed m) (hne : m ≠ [])
    (hquote : m.filter (!isQuote ·) = m) (h : r.inner = x ++ m ++ y) :
    r.raw = trimStart (x.filter (!isQuote ·)) ++ m ++ trimEnd (y.filter (!isQuote ·)) := by
  rw [raw, h, List.filter_append, List.filter_append, hquote, trim_around hm hne]

/-- **A url that leads away names no file next to the sheet**, also where a `)` ends it early. -/
theorem leads_away {url : Text} (h : LeadsAway url) (hinner : r.inner = quotedInner url) :
    r.raw.isEmpty = false ∧ r.kind ≠ .localRelative := by
  obtain hroot | hhost := h
  · obtain ⟨rest, rfl⟩ := List.head?_eq_some_iff.1 hroot
    have hraw := r.raw_around (x := ['"']) (m := ['/']) (y := (rest ++ ['"']).takeWhile (· != ')'))
      (trimmed_singleton rfl) (List.cons_ne_nil _ _) rfl hinner
    have hslash : r.raw = '/' :: trimEnd (((rest ++ ['"']).takeWhile (· != ')')).filter
        (!isQuote ·)) := hraw
    rw [kind, hslash]
    refine ⟨rfl, ?_⟩
    unfold Url.kind
    split
    · exact nofun
    · rw [List.head?_cons, if_pos rfl]
      exact nofun
  · obtain ⟨before, after, hurl⟩ := includes_iff.1 hhost
    obtain ⟨more, hmore⟩ : ∃ more, (url ++ ['"']).takeWhile (· != ')') =
        url.takeWhile (· != ')') ++ more := by
      rw [List.takeWhile_append]
      split
      · rename_i hall
        exact ⟨_, by rw [(List.takeWhile_sublist _).eq_of_length hall]⟩
      · exact ⟨[], (List.append_nil _).symm⟩
    have hmark : Trimmed [':', '/', '/'] := by
      constructor <;> intro c hc <;> cases hc <;> rfl
    have hraw := r.raw_around (x := '"' :: before) (m := [':', '/', '/']) (y := after ++ more)
      hmark (List.cons_ne_nil _ _) rfl
      (by rw [hinner, quotedInner, hmore, hurl]; simp only [List.cons_append, List.append_assoc])
    rw [kind, hraw]
    refine ⟨by simp, ?_⟩
    have hincludes : includes [':', '/', '/']
        (trimStart (('"' :: before).filter (!isQuote ·)) ++ [':', '/', '/'] ++
          trimEnd ((after ++ more).filter (!isQuote ·))) = true := includes_iff.2 ⟨_, _, rfl⟩
    unfold Url.kind
    rw [hincludes]
    split
    · exact nofun
    · split
      · exact nofun
      · exact nofun

end UrlReference

/-- The token that names a copy is a url in quotes. -/
theorem Settings.newToken_eq (s : Settings) (name : Text) :
    s.newToken name = Css.urlAround ('"' :: (s.urlPrefix ++ '/' :: name) ++ ['"']) := by
  have hopen : "url(\"".toList = ['u', 'r', 'l', '(', '"'] := rfl
  have hclose : "\")".toList = ['"', ')'] := rfl
  change "url(\"".toList ++ s.urlPrefix ++ '/' :: name ++ "\")".toList = _
  rw [Css.urlAround, hopen, hclose]
  simp only [List.cons_append, List.nil_append, List.append_assoc]

end StyleAssets
