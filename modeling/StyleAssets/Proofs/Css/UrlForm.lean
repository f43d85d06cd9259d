import Mathlib
import StyleAssets.Proofs.Css.Cut

/-!
# Urls and strings

How far a url or a string reaches whose text is known up to the character that ends it.

* `Inner` — what may stand before a `)` or a quote and leaves that character its meaning.
* `front_url` — what the characters `url(` begin.
* `urlLength?_close` — an unquoted url, broken or not, ends at the first `)`.
* `stringLength_close` — a string ends at the first quote.
-/

namespace StyleAssets.Css

/-- A text without the character `d`, at whose end no backslash takes the next character with it. -/
structure Inner (d : Char) (t : Text) : Prop where
  not_mem : d ∉ t
  last : t.getLast? ≠ some '\\'

variable {d c : Char} {t w : Text}

theorem Inner.tail (h : Inner d (c :: t)) : Inner d t := by
  refine ⟨fun hmem => h.not_mem (List.mem_cons_of_mem c hmem), fun hlast => h.last ?_⟩
  cases t with
  | nil => cases hlast
  | cons c' t => exact hlast

theorem Inner.drop (h : Inner d t) (n : Nat) : Inner d (t.drop n) := by
  refine ⟨fun hmem => h.not_mem (List.mem_of_mem_drop hmem), fun hlast => h.last ?_⟩
  rw [List.getLast?_drop] at hlast
  split at hlast
  · cases hlast
  · exact hlast

/-- A backslash is not the last character. -/
theorem Inner.ne_nil_of_escape (h : Inner d ('\\' :: t)) : t ≠ [] := by
  rintro rfl
  exact h.last rfl

theorem Inner.head_ne (h : Inner d (c :: t)) : c ≠ d := by
  rintro rfl
  exact h.not_mem List.mem_cons_self

/-! ## Urls -/

theorem brokenUrlLength_close : ∀ {t : Text}, Inner ')' t → ∀ rest : Text,
    brokenUrlLength (t ++ ')' :: rest) = t.length + 1
  | [], _, rest => by rw [List.nil_append, brokenUrlLength_cons, if_pos rfl]; rfl
  | [c], h, rest => by
    have hescape : c ≠ '\\' := fun hc => h.last (congrArg some hc)
    rw [List.singleton_append, brokenUrlLength_cons, if_neg h.head_ne,
      if_neg (fun hc => hescape hc.1), brokenUrlLength_cons, if_pos rfl]
    rfl
  | c :: c' :: t, h, rest => by
    have hnext : ((c' :: t) ++ ')' :: rest).head? = some c' := rfl
    show brokenUrlLength (c :: ((c' :: t) ++ ')' :: rest)) = _
    rw [brokenUrlLength_cons, if_neg h.head_ne]
    split
    · rename_i hescape
      rw [List.cons_append, List.tail_cons, brokenUrlLength_close h.tail.tail rest]
      rfl
    · rw [brokenUrlLength_close h.tail rest]
      rfl

theorem urlEndLength_close (h : Inner ')' t) (rest : Text) :
    urlEndLength (t ++ ')' :: rest) = t.length + 1 := by
  have hle := length_takeWhile_le isSpace t
  have hlength := List.length_drop (i := (t.takeWhile isSpace).length) (l := t)
  have hblanks : (t ++ ')' :: rest).takeWhile isSpace = t.takeWhile isSpace :=
    takeWhile_stop rfl t rest
  cases hrest : t.drop (t.takeWhile isSpace).length with
  | nil =>
    have hnext : (t ++ ')' :: rest).drop ((t ++ ')' :: rest).takeWhile isSpace).length =
        ')' :: rest := by
      rw [hblanks, drop_append_cons hle, hrest, List.nil_append]
    rw [hrest, List.length_nil] at hlength
    rw [urlEndLength_of_cons hnext, hblanks, if_pos rfl]
    omega
  | cons c more =>
    have hnext : (t ++ ')' :: rest).drop ((t ++ ')' :: rest).takeWhile isSpace).length =
        c :: (more ++ ')' :: rest) := by
      rw [hblanks, drop_append_cons hle, hrest, List.cons_append]
    have hmore : Inner ')' (c :: more) := hrest ▸ h.drop _
    rw [hrest, List.length_cons] at hlength
    rw [urlEndLength_of_cons hnext, hblanks, if_neg hmore.head_ne,
      brokenUrlLength_close hmore.tail rest]
    omega

theorem urlBodyLength_close : ∀ {t : Text}, Inner ')' t → ∀ rest : Text,
    urlBodyLength (t ++ ')' :: rest) = t.length + 1
  | [], _, rest => by rw [List.nil_append, urlBodyLength, if_pos (by rfl)]; rfl
  | c :: t, h, rest => by
    rw [List.cons_append, urlBodyLength, if_neg (by simpa using h.head_ne), List.length_cons]
    split
    · rw [urlEndLength_close h.tail rest]
    split
    · rw [brokenUrlLength_close h.tail rest]
    split
    · rename_i hescape
      obtain rfl : c = '\\' := by simpa using hescape
      have hstop : IsStop ')' := .inr (.inl rfl)
      have hle := escapeLength_le t
      have hlength := List.length_drop (i := escapeLength t) (l := t)
      split
      · rw [brokenUrlLength_close h.tail rest]
      · rw [escapeLength_stop hstop h.ne_nil_of_escape, drop_append_cons hle,
          urlBodyLength_close (h.tail.drop (escapeLength t)) rest, hlength]
        omega
    · rw [urlBodyLength_close h.tail rest]
termination_by t => t.length
decreasing_by all_goals simp only [List.length_drop, List.length_cons]; omega

/-- Does a quote come first, blanks aside? -/
def startsQuote (t : Text) : Bool :=
  match t.dropWhile isSpace with
  | c :: _ => c == '"' || c == '\''
  | [] => false

theorem drop_length_takeWhile (p : Char → Bool) (t : Text) :
    t.drop (t.takeWhile p).length = t.dropWhile p := by
  have h : (t.takeWhile p ++ t.dropWhile p).drop (t.takeWhile p).length = t.dropWhile p :=
    List.drop_left
  rwa [List.takeWhile_append_dropWhile] at h

theorem urlLength?_close (h : Inner ')' t) (rest : Text) : urlLength? (t ++ ')' :: rest) =
    if startsQuote t then none else some (t.length + 1) := by
  have hle := length_takeWhile_le isSpace t
  have hlength := List.length_drop (i := (t.takeWhile isSpace).length) (l := t)
  have hbody := urlBodyLength_close (h.drop (t.takeWhile isSpace).length) rest
  rw [hlength] at hbody
  unfold urlLength? startsQuote
  simp only [takeWhile_stop (show isSpace ')' = false from rfl), drop_append_cons hle]
  rw [← drop_length_takeWhile]
  cases hrest : t.drop (t.takeWhile isSpace).length with
  | nil =>
    rw [hrest, List.nil_append] at hbody
    simp only [List.nil_append, hbody]
    rw [if_neg (by decide), if_neg (by decide)]
    congr 1
    omega
  | cons c more =>
    rw [hrest, List.cons_append] at hbody
    simp only [List.cons_append, hbody]
    split
    · rfl
    · congr 1
      omega

/-! ## Strings -/

/-- A string ends at the first quote that is not escaped. -/
theorem stringLength_close {quote : Char} (hquote : IsStop quote) : ∀ {t : Text}, Inner quote t →
    (∀ c ∈ t, isNewline c = false) → ∀ rest : Text,
      stringLength quote (t ++ quote :: rest) = t.length + 1
  | [], _, _, rest => by rw [List.nil_append, stringLength, if_pos (beq_self_eq_true _)]; rfl
  | c :: t, h, hline, rest => by
    obtain ⟨hc, ht⟩ := List.forall_mem_cons.1 hline
    rw [List.cons_append, stringLength, if_neg (by simpa using h.head_ne), hc, List.length_cons]
    rw [if_neg (by decide)]
    split
    · rename_i hescape
      obtain rfl : c = '\\' := by simpa using hescape
      have hstarts : startsLine (t ++ quote :: rest) = false := by
        rw [startsLine_stop hquote]
        cases t with
        | nil => rfl
        | cons c' t => exact ht c' List.mem_cons_self
      have hle := escapeLength_le t
      have hlength := List.length_drop (i := escapeLength t) (l := t)
      have hmore := stringLength_close hquote (h.tail.drop (escapeLength t))
        (fun c hc => ht c (List.mem_of_mem_drop hc)) rest
      simp only [hstarts, Bool.false_eq_true, if_false]
      rw [escapeLength_stop hquote h.ne_nil_of_escape, drop_append_cons hle, hmore,
        List.length_append, hlength]
      omega
    · rw [stringLength_close hquote h.tail ht rest]
termination_by t => t.length
decreasing_by all_goals simp only [List.length_drop, List.length_cons]; omega

/-! ## What `url(` begins -/

/-- A url reference with some text in it. -/
def urlAround (inner : Text) : Text := 'u' :: 'r' :: 'l' :: '(' :: inner ++ [')']

theorem front_url (x : Text) : front 'u' ('r' :: 'l' :: '(' :: x) =
    match urlLength? x with
    | some more => (.plain, 3 + more)
    | none => (.opening .round, 3) := by
  have hname : nameLength ('u' :: 'r' :: 'l' :: '(' :: x) = 3 := by
    simp [nameLength, isNameChar, isNameStart]
  have hnumber : startsNumber ('u' :: 'r' :: 'l' :: '(' :: x) = false := by rfl
  have hstarts : startsName ('u' :: 'r' :: 'l' :: '(' :: x) = true := by rfl
  have hparen : ('u' :: 'r' :: 'l' :: '(' :: x).drop
      (nameLength ('u' :: 'r' :: 'l' :: '(' :: x)) = '(' :: x := by rw [hname]; rfl
  have hvalue : (nameValue (('u' :: 'r' :: 'l' :: '(' :: x).take
      (nameLength ('u' :: 'r' :: 'l' :: '(' :: x)))).map Char.toLower = ['u', 'r', 'l'] := by
    rw [hname]
    simp [nameValue, charValue, Char.toLower]
  show plainFront 'u' ('r' :: 'l' :: '(' :: x) = _
  rw [plainFront, if_neg (by decide), if_neg (by decide), if_neg (by simp),
    if_neg (by rw [hnumber]; decide), if_neg (by simp), if_pos hstarts, nameToken_of_paren hparen,
    if_pos hvalue, hname]
  cases urlLength? x with
  | none => rfl
  | some more =>
    simp only [Prod.mk.injEq, true_and]
    omega

end StyleAssets.Css
