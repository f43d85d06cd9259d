import StyleAssets.Proofs.Css.Orderly
import StyleAssets.Proofs.Url.Extension
import StyleAssets.Proofs.Url.First

/-!
# The names in new urls

A new url is quoted text without anything that could end the quotes or the url.

* `UrlReference.inner_of_kind` — a url that names a file keeps the character after it.
* `PlainPrefix`, `PlainName` — prefixes and names of sheets made of ordinary characters.
* `UrlReference.inner_newUrl`, `UrlReference.orderly_newUrl` — new urls made of ordinary characters
  end where they should.
-/

namespace StyleAssets

open Text

/-! ## Ordinary characters -/

/-- A letter, a digit, `-` or `_`. -/
def isWord (c : Char) : Bool := c.isAlphanum || c == '-' || c == '_'

/-- A prefix of urls that starts with `/` and is made of ordinary characters and `/`. -/
structure PlainPrefix (t : Text) : Prop where
  head : t.head? = some '/'
  all : t.all (fun c => isWord c || c == '/') = true

/-- A path whose file name is made of ordinary characters and one point. -/
def PlainName (p : Path) : Prop :=
  ∃ name, p.fileName? = some name ∧ (Utf8.lossy name).count '.' = 1 ∧
    (Utf8.lossy name).all (fun c => isWord c || c == '.') = true

/-! ## Urls of files -/

namespace UrlReference

variable {r : UrlReference}

/-- A url that names a file takes nothing that follows it along. -/
theorem inner_of_kind (h : r.kind = .localRelative) (hclose : ')' ∉ r.inner) :
    Css.Inner ')' r.inner := by
  refine ⟨hclose, fun hlast => ?_⟩
  obtain ⟨init, hinner⟩ := List.getLast?_eq_some_iff.1 hlast
  obtain ⟨c, hc, halphanum⟩ := Url.getLast?_of_hasExtension (Url.hasExtension_of_kind h)
  have hkept : r.inner.filter (!isQuote ·) = init.filter (!isQuote ·) ++ ['\\'] := by
    rw [hinner, List.filter_append]
    rfl
  have hraw : r.raw.getLast? = some '\\' := by
    have haround := trim_around (x := init.filter (!isQuote ·)) (y := [])
      (trimmed_singleton (c := '\\') rfl) (List.cons_ne_nil _ _)
    rw [List.append_nil] at haround
    rw [raw, hkept, haround]
    simp [trimEnd]
  rw [hraw] at hc
  cases hc
  cases halphanum

end UrlReference

/-! ## New urls -/

/-- What the quotes of a new url hold. -/
def OutputAsset.newUrl (asset : OutputAsset) (urlPrefix : Text) : Text :=
  urlPrefix ++ '/' :: asset.name

section

variable {urlPrefix : Text} {cwd : Option Path} {sheet : Path} {r : UrlReference}

theorem OutputAsset.mem_stem (h : PlainName sheet) {c : Char} (hc : c ∈ stem sheet) :
    isWord c = true ∨ c = '.' := by
  obtain ⟨name, hname, -, hall⟩ := h
  rw [stem, hname] at hc
  simpa using List.all_eq_true.1 hall c (Url.dropExtension_subset _ hc)

/-- The characters of a new url are ordinary ones, or those of the name of the asset. -/
theorem OutputAsset.mem_newUrl (hplain : PlainPrefix urlPrefix) (hsheet : PlainName sheet)
    {raw : Text} {c : Char} (hc : c ∈ (derive cwd sheet raw).newUrl urlPrefix) :
    isWord c = true ∨ c = '/' ∨ c = '.' ∨ c ∈ baseName raw := by
  have hbetween : ∀ c ∈ infixText, isWord c = true := List.all_eq_true.1 rfl
  simp only [newUrl, derive, List.mem_append, List.mem_cons] at hc
  obtain hc | rfl | (hc | hc) | hc := hc
  · have hall : isWord c = true ∨ c = '/' := by simpa using List.all_eq_true.1 hplain.all c hc
    exact hall.imp_right .inl
  · exact .inr (.inl rfl)
  · exact (mem_stem hsheet hc).imp_right fun h => .inr (.inl h)
  · exact .inl (hbetween c hc)
  · exact .inr (.inr (.inr hc))

/-- A new url holds neither quotes nor parentheses, and has no backslash at its end. -/
theorem UrlReference.inner_newUrl (hplain : PlainPrefix urlPrefix) (hsheet : PlainName sheet)
    (hkind : r.kind = .localRelative) (hclose : ')' ∉ r.inner) {d : Char}
    (hd : d = '"' ∨ d = '\'' ∨ d = ')') :
    Css.Inner d ((OutputAsset.derive cwd sheet r.raw).newUrl urlPrefix) := by
  obtain ⟨c, hlast, halphanum⟩ := Url.getLast?_of_hasExtension (Url.hasExtension_of_kind hkind)
  constructor
  · intro hmem
    have hword : isWord d = false ∧ d ≠ '/' ∧ d ≠ '.' := by
      obtain rfl | rfl | rfl := hd <;> decide
    obtain h | h | h | h := OutputAsset.mem_newUrl hplain hsheet hmem
    · rw [hword.1] at h
      cases h
    · exact hword.2.1 h
    · exact hword.2.2 h
    · obtain ⟨hinner, hquote⟩ := mem_raw (OutputAsset.baseName_subset _ h)
      obtain rfl | rfl | rfl := hd
      · cases hquote
      · cases hquote
      · exact hclose hinner
  · have hname := OutputAsset.getLast?_name cwd sheet hlast halphanum
    have hend : ((OutputAsset.derive cwd sheet r.raw).newUrl urlPrefix).getLast? = some c := by
      rw [OutputAsset.newUrl, List.getLast?_append, List.getLast?_cons, hname]
      rfl
    rw [hend]
    intro heq
    cases heq
    cases halphanum

/-- Blanks aside, the only line break that a new url may hold is one in the name of the asset. -/
theorem OutputAsset.no_newline_newUrl (hplain : PlainPrefix urlPrefix) (hsheet : PlainName sheet)
    {raw : Text} (hline : ∀ c ∈ baseName raw, Css.isNewline c = false) :
    ∀ c ∈ (derive cwd sheet raw).newUrl urlPrefix, Css.isNewline c = false := by
  intro c hc
  have hother : ∀ d : Char, Css.isNewline d = true → isWord d = false ∧ d ≠ '/' ∧ d ≠ '.' := by
    intro d hd
    simp only [Css.isNewline, Bool.or_eq_true, beq_iff_eq] at hd
    obtain (rfl | rfl) | rfl := hd <;> decide
  by_contra hnewline
  obtain ⟨hword, hslash, hdot⟩ := hother c (by simpa using hnewline)
  obtain h | h | h | h := mem_newUrl hplain hsheet hc
  · rw [hword] at h
    cases h
  · exact hslash h
  · exact hdot h
  · exact hnewline (hline c h)

theorem not_isNoisy_of_isWord {c : Char} (h : isWord c = true) : Css.isNoisy c = false := by
  by_contra hnoisy
  simp only [Css.isNoisy, Css.isNewline, Bool.not_eq_false, Bool.or_eq_true, beq_iff_eq,
    List.contains_iff_mem, List.mem_cons, List.not_mem_nil, or_false] at hnoisy
  obtain ((rfl | rfl) | rfl) | rfl | rfl | rfl | rfl | rfl | rfl | rfl | rfl | rfl | rfl | rfl :=
    hnoisy
  all_goals cases h

/-- The new url of an orderly one is orderly. -/
theorem UrlReference.orderly_newUrl (hplain : PlainPrefix urlPrefix) (hsheet : PlainName sheet)
    (h : Css.Orderly r.inner) :
    Css.Orderly ('"' :: (OutputAsset.derive cwd sheet r.raw).newUrl urlPrefix ++ ['"']) := by
  have hquiet : Css.Quiet ((OutputAsset.derive cwd sheet r.raw).newUrl urlPrefix) := by
    intro c hc
    obtain hword | rfl | rfl | hname := OutputAsset.mem_newUrl hplain hsheet hc
    · exact not_isNoisy_of_isWord hword
    · rfl
    · rfl
    · obtain ⟨hinner, hquote⟩ := mem_raw (OutputAsset.baseName_subset _ hname)
      obtain hquiet | rfl | rfl := h.mem hinner
      · exact hquiet
      · cases hquote
      · cases hquote
  have hnone : Css.Quiet [] := fun c hc => absurd hc List.not_mem_nil
  exact .quoted (.inl rfl) hnone hquiet hnone

end

end StyleAssets
