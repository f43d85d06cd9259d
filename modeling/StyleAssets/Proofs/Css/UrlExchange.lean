import StyleAssets.Proofs.Css.Exchange

/-!
# Urls that give way to quoted ones

What CSS reads as a url may give way to a url in quotes, whatever follows it.

* `IsUrl` — tokens that are a url to CSS; `IsUrl.cut` says that they stay one.
* `quotedUrl` — the tokens of a url in quotes; `cut_quotedUrl` says that they are read as such.
* `Exchanges` — in a text, one part is read like another one in its place.
* `IsUrl.exchanges` — **main result**.
-/

namespace StyleAssets.Css

open Text

/-- Tokens that are a url to CSS: a plain token, or a block without blocks in it. -/
inductive IsUrl : List Token → Prop
  | plain {t : Token} (h : t.role = .plain) : IsUrl [t]
  | block {opening closing : Token} {content : List Token}
      (hopening : opening.role = .opening .round) (hcontent : ∀ t ∈ content, t.Unbracketed)
      (hclosing : closing.role = .closing .round) :
      IsUrl (opening :: (content ++ [closing]))

/-- In a text with `old` in it, `new` is read alike. -/
def Exchanges (front old new back : Text) : Prop :=
  ∃ pre ts ts' post before after, tokens (front ++ old ++ back) = pre ++ (ts ++ post) ∧
    tokens (front ++ new ++ back) = pre ++ (ts' ++ post) ∧ front = textOf pre ++ before ∧
    Exchange before old new after ts ts'

variable {ts content : List Token} {t opening closing : Token} {inner body rest : Text}

theorem IsUrl.shown (h : IsUrl ts) : Shown ts ∧ ts ≠ [] ∧
    ∀ t ∈ ts.head?, t.role = .plain ∨ t.role = .blank ∨ t.role = .opening .round := by
  cases h with
  | plain h =>
    refine ⟨.plain h, List.cons_ne_nil _ _, fun t ht => ?_⟩
    cases ht
    exact .inl h
  | block hopening hcontent hclosing =>
    refine ⟨.block hopening hcontent hclosing, List.cons_ne_nil _ _, fun t ht => ?_⟩
    cases ht
    exact .inr (.inr hopening)

/-- The first token of a row that is cut off a text is not empty. -/
theorem Cut.pos (h : Cut ts rest) : ∀ t ∈ ts, 0 < t.byteSize := by
  intro t ht
  have hmem : t ∈ tokens (textOf ts ++ rest) := by
    rw [h]
    exact List.mem_append_left _ ht
  obtain ⟨c, more, hfront⟩ := exists_front hmem
  have hc := c.utf8Size_pos
  rw [hfront, Token.byteSize, byteSize_cons]
  omega

/-! ## The tokens of a url -/

theorem eq_of_single?_eq_closing {c : Char} (h : single? c = some (.closing .round)) : c = ')' := by
  unfold single? at h
  split at h
  all_goals cases h
  rfl

theorem text_of_closing {t : Text} {token : Token} (h : token ∈ tokens t)
    (hrole : token.role = .closing .round) : token.text = [')'] := by
  obtain ⟨c, hsingle, htext⟩ := text_of_single h (by rw [hrole]; decide)
  rw [hrole] at hsingle
  rw [htext, eq_of_single?_eq_closing hsingle]

theorem cut_close (rest : Text) : Cut [⟨.closing .round, [')']⟩] rest :=
  Cut.cons ⟨')', [], rfl, rfl⟩ rfl

/-- A quoted url with one string in it. -/
def quotedUrl (body : Text) : List Token :=
  [⟨.opening .round, ['u', 'r', 'l', '(']⟩, ⟨.plain, '"' :: body ++ ['"']⟩,
    ⟨.closing .round, [')']⟩]

theorem isUrl_quotedUrl (body : Text) : IsUrl (quotedUrl body) := by
  have hstring : ∀ t ∈ [Token.mk .plain ('"' :: body ++ ['"'])], t.Unbracketed := by
    intro t ht
    rw [List.mem_singleton.1 ht]
    exact ⟨nofun, nofun⟩
  exact IsUrl.block rfl hstring rfl

theorem textOf_quotedUrl (body : Text) :
    textOf (quotedUrl body) = urlAround ('"' :: body ++ ['"']) := by
  simp [quotedUrl, urlAround]

theorem cut_quotedUrl (hbody : Inner '"' body) (hline : ∀ c ∈ body, isNewline c = false)
    (rest : Text) : Cut (quotedUrl body) rest := by
  refine Cut.cons ⟨'u', ['r', 'l', '('], rfl, ?_⟩
    (Cut.cons ⟨'"', body ++ ['"'], rfl, ?_⟩ (cut_close rest))
  · show front 'u' ('r' :: 'l' :: '(' :: _) = _
    rw [front_url]
    rfl
  · have hlength := stringLength_close (.inr (.inr (.inl rfl))) hbody hline (')' :: rest)
    have htext : body ++ ['"'] ++ (textOf [⟨.closing .round, [')']⟩] ++ rest) =
        body ++ '"' :: ')' :: rest := by simp
    have hfront (x : Text) : front '"' x = (.plain, stringLength '"' x) := by rfl
    rw [htext, hfront, hlength, List.length_append]
    rfl

/-- A url of CSS stays one, whatever follows it. -/
theorem IsUrl.cut (h : IsUrl ts) (htext : textOf ts = urlAround inner) (hinner : Inner ')' inner)
    (hcut : Cut ts rest) (rest' : Text) : Cut ts rest' := by
  cases h with
  | @plain t hplain =>
    have ht : t.text = 'u' :: 'r' :: 'l' :: '(' :: (inner ++ [')']) := by
      simpa [urlAround] using htext
    have hlength (rest : Text) : front 'u' ('r' :: 'l' :: '(' :: (inner ++ [')']) ++ rest) =
        if startsQuote inner then (.opening .round, 3) else (.plain, 3 + (inner.length + 1)) := by
      have hclose := urlLength?_close hinner rest
      show front 'u' ('r' :: 'l' :: '(' :: (inner ++ [')'] ++ rest)) = _
      rw [List.append_assoc, front_url, List.singleton_append, hclose]
      split
      · rename_i hsome
        split at hsome
        · cases hsome
        · rename_i hquote
          rw [if_neg hquote]
          cases hsome
          rfl
      · rename_i hnone
        split at hnone
        · rename_i hquote
          rw [if_pos hquote]
        · cases hnone
    have hquote : ¬startsQuote inner = true := by
      intro hquote
      have hfirst := hcut
      rw [Cut, textOf_cons, ht, textOf_nil, List.append_nil, List.cons_append, tokens_cons,
        hlength, if_pos hquote] at hfirst
      have hrole := congrArg Token.role (List.cons.inj hfirst).1
      rw [hplain] at hrole
      cases hrole
    refine Cut.cons ⟨'u', _, ht, ?_⟩ rfl
    rw [textOf_nil, List.nil_append, hlength, if_neg hquote, hplain]
    congr 1
    simp only [List.length_cons, List.length_append, List.length_nil]
    omega
  | @block opening closing content hopening hcontent hclosing =>
    have hmem : closing ∈ tokens (textOf (opening :: (content ++ [closing])) ++ rest) := by
      rw [hcut]
      simp
    obtain rfl : closing = ⟨.closing .round, [')']⟩ := by
      obtain ⟨role, text⟩ := closing
      obtain rfl : role = .closing .round := hclosing
      rw [show text = [')'] from text_of_closing hmem rfl]
    rw [← List.cons_append] at hcut ⊢
    have hleft := hcut.left
    exact (hleft.settled (.inr (.inl rfl)) rest').append (cut_close rest')

/-- **A url of CSS may give way to a quoted one**, whatever follows it. -/
theorem IsUrl.exchanges {text : Text} {pre post : List Token} (h : IsUrl ts)
    (htokens : tokens text = pre ++ (ts ++ post)) (htext : textOf ts = urlAround inner)
    (hinner : Inner ')' inner) (hbody : Inner '"' body) (hline : ∀ c ∈ body, isNewline c = false)
    (back : Text) :
    Exchanges (textOf pre) (urlAround inner) (urlAround ('"' :: body ++ ['"'])) back := by
  obtain ⟨hrest, hpre⟩ := cut_of_tokens htokens
  obtain ⟨hpost, hts⟩ := cut_of_tokens hrest.symm
  rw [textOf_append, htext] at hpre
  have hpre' := hpre.settled (.inl rfl)
  have hnew := cut_quotedUrl hbody hline back
  obtain ⟨hshown, hne, hfirst⟩ := h.shown
  refine ⟨pre, ts, quotedUrl body, tokens back, [], [], ?_, ?_, by simp, ?_⟩
  · have hold := h.cut htext hinner hts back
    rw [List.append_assoc, ← hold, htext]
    exact hpre' _
  · rw [List.append_assoc, ← hnew, textOf_quotedUrl]
    exact hpre' _
  · refine .of_shown (by simpa using htext) (by simp [textOf_quotedUrl]) hne (List.cons_ne_nil _ _)
      hshown (isUrl_quotedUrl body).shown.1 (fun t ht => ?_) hfirst
    exact hts.pos t (List.mem_of_mem_head? ht)

end StyleAssets.Css
