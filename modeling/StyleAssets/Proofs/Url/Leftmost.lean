import Mathlib.Order.Bounds.Basic
import StyleAssets.Proofs.Text.Edit
import StyleAssets.Proofs.Url.First

/-!
# The leftmost token

Where a value has a url token is a matter of its text: a token can start at any `url(` that a
character other than `)` follows, with a `)` behind it. The first token is the one at the leftmost
such place.

* `UrlReference.CandidateAt` — the places where a token can start; `candidateAt_cons` finds them
  one character after the other.
* `UrlReference.first?_eq_some_iff`, `UrlReference.first?_eq_none_iff` — the search finds the
  leftmost candidate.
* `UrlReference.extract_leftmost` — **main result**: what is extracted from any value.
-/

namespace StyleAssets

open Text

/-! ## Places in a text -/

/-- A part stands in the text at byte `i`. -/
def Text.OccursAt (part : Text) (i : Nat) (t : Text) : Prop :=
  ∃ before after, t = before ++ part ++ after ∧ byteSize before = i

namespace UrlReference

variable {v before inner after : Text} {r : UrlReference} {i : Nat}

/-- A token can start here: `url(` with a character other than `)` behind it, and a `)` later on. -/
def CandidateAt (v : Text) (i : Nat) : Prop :=
  ∃ before c rest, v = before ++ opening ++ c :: rest ∧ byteSize before = i ∧ c ≠ ')' ∧ ')' ∈ rest

theorem isSome_token?_iff {t : Text} : (token? t).isSome = true ↔
    ∃ c rest, t = opening ++ c :: rest ∧ c ≠ ')' ∧ ')' ∈ rest := by
  rw [isSome_token?]
  constructor
  · rintro ⟨rest, rfl, hhead, hmem⟩
    cases rest with
    | nil => cases hmem
    | cons c rest =>
      have hc : c ≠ ')' := fun heq => hhead (by rw [heq]; rfl)
      exact ⟨c, rest, rfl, hc, (List.mem_cons.1 hmem).resolve_left hc.symm⟩
  · rintro ⟨c, rest, rfl, hc, hmem⟩
    exact ⟨c :: rest, rfl, fun hhead => hc (Option.some.inj hhead), List.mem_cons_of_mem c hmem⟩

theorem not_candidateAt_nil (i : Nat) : ¬CandidateAt [] i := by
  rintro ⟨before, c, rest, h, -⟩
  cases before <;> cases h

/-- A candidate is at the very start of a text, or one of what follows the first character. -/
theorem candidateAt_cons {c : Char} {t : Text} : CandidateAt (c :: t) i ↔
    i = 0 ∧ (token? (c :: t)).isSome = true ∨ ∃ k, i = c.utf8Size + k ∧ CandidateAt t k := by
  rw [isSome_token?_iff]
  constructor
  · rintro ⟨before, d, rest, htext, rfl, hd, hmem⟩
    cases before with
    | nil => exact .inl ⟨rfl, d, rest, htext, hd, hmem⟩
    | cons c' before =>
      rw [List.append_assoc, List.cons_append] at htext
      obtain ⟨rfl, rfl⟩ := List.cons.inj htext
      exact .inr
        ⟨byteSize before, rfl, before, d, rest, (List.append_assoc _ _ _).symm, rfl, hd, hmem⟩
  · rintro (⟨rfl, d, rest, htext, hd, hmem⟩ | ⟨k, rfl, before, d, rest, rfl, rfl, hd, hmem⟩)
    · exact ⟨[], d, rest, htext, rfl, hd, hmem⟩
    · exact ⟨c :: before, d, rest, rfl, rfl, hd, hmem⟩

/-- A token is a candidate. -/
theorem candidateAt_start (hne : r.inner ≠ []) (hclose : ')' ∉ r.inner) :
    CandidateAt r.value r.start := by
  obtain ⟨c, rest, hinner⟩ := List.exists_cons_of_ne_nil hne
  refine ⟨r.before, c, rest ++ ')' :: r.after, ?_, rfl, ?_, ?_⟩
  · simp [value, hinner]
  · rintro rfl
    exact hclose (hinner ▸ List.mem_cons_self)
  · simp

/-! ## The search -/

theorem first?_eq_none_iff : first? v = none ↔ ∀ i, ¬CandidateAt v i := by
  induction v with
  | nil => exact ⟨fun _ => not_candidateAt_nil, fun _ => rfl⟩
  | cons c t ih =>
    rw [first?]
    cases htoken : token? (c :: t) with
    | some found =>
      refine ⟨fun h => absurd h (Option.some_ne_none _), fun hnone => absurd ?_ (hnone 0)⟩
      exact candidateAt_cons.2 (.inl ⟨rfl, by rw [htoken]; rfl⟩)
    | none =>
      simp only [Option.map_eq_none_iff, ih]
      constructor
      · intro hnone i hi
        obtain ⟨-, hsome⟩ | ⟨k, -, hk⟩ := candidateAt_cons.1 hi
        · rw [htoken] at hsome
          cases hsome
        · exact hnone k hk
      · intro hnone k hk
        exact hnone _ (candidateAt_cons.2 (.inr ⟨k, rfl, hk⟩))

/-- What the search finds is a token at the leftmost candidate. -/
theorem first?_spec (h : first? v = some r) :
    r.value = v ∧ r.inner ≠ [] ∧ ')' ∉ r.inner ∧ ∀ i, CandidateAt v i → r.start ≤ i := by
  refine ⟨value_of_first? h, ?_⟩
  induction v generalizing r with
  | nil => cases h
  | cons c t ih =>
    rw [first?] at h
    cases htoken : token? (c :: t) with
    | some found =>
      rw [htoken] at h
      cases h
      obtain ⟨-, hne, hclose⟩ := token?_spec htoken
      exact ⟨hne, hclose, fun i _ => Nat.zero_le i⟩
    | none =>
      rw [htoken] at h
      obtain ⟨r', hr', rfl⟩ := Option.map_eq_some_iff.1 h
      obtain ⟨hne, hclose, hleast⟩ := ih hr'
      refine ⟨hne, hclose, fun i hi => ?_⟩
      obtain ⟨-, hsome⟩ | ⟨k, rfl, hk⟩ := candidateAt_cons.1 hi
      · rw [htoken] at hsome
        cases hsome
      · exact Nat.add_le_add_left (hleast k hk) _

/-- Where a token starts tells all of it, for it ends at its first `)`. -/
theorem eq_of_start {r' : UrlReference} (hvalue : r.value = r'.value) (hstart : r.start = r'.start)
    (h : r.inner ≠ [] ∧ ')' ∉ r.inner) (h' : r'.inner ≠ [] ∧ ')' ∉ r'.inner) : r = r' := by
  obtain ⟨before, inner, after⟩ := r
  obtain ⟨before', inner', after'⟩ := r'
  have hsplit : before ++ (opening ++ inner ++ [')'] ++ after) =
      before' ++ (opening ++ inner' ++ [')'] ++ after') := by
    simpa only [value, List.append_assoc] using hvalue
  obtain ⟨hbefore, hrest⟩ := append_inj_of_byteSize hsplit hstart
  have htoken : token? (opening ++ inner ++ [')'] ++ after) = some (inner, after) :=
    token?_eq_some_iff.2 ⟨rfl, h⟩
  have htoken' : token? (opening ++ inner' ++ [')'] ++ after') = some (inner', after') :=
    token?_eq_some_iff.2 ⟨rfl, h'⟩
  rw [hrest, htoken'] at htoken
  cases hbefore
  cases htoken
  rfl

/-- **The search finds the leftmost token.** -/
theorem first?_eq_some_iff : first? v = some r ↔
    r.value = v ∧ r.inner ≠ [] ∧ ')' ∉ r.inner ∧ ∀ i, CandidateAt v i → r.start ≤ i := by
  refine ⟨first?_spec, ?_⟩
  rintro ⟨rfl, hne, hclose, hleast⟩
  have hcandidate := candidateAt_start hne hclose
  cases hfirst : first? r.value with
  | none => exact absurd hcandidate (first?_eq_none_iff.1 hfirst _)
  | some r' =>
    obtain ⟨hvalue, hne', hclose', hleast'⟩ := first?_spec hfirst
    have hcandidate' := candidateAt_start hne' hclose'
    rw [hvalue] at hcandidate'
    have hstart := Nat.le_antisymm (hleast' _ hcandidate) (hleast _ hcandidate')
    rw [eq_of_start hvalue hstart ⟨hne', hclose'⟩ ⟨hne, hclose⟩]

/-! ## What is extracted -/

theorem extract_eq_ok_none_iff : extract v = .ok none ↔ ¬opening <:+: v := by
  rw [← includes_iff_infix, extract]
  cases includes opening v with
  | false => simp
  | true =>
    cases first? v with
    | none => simp
    | some r => cases h : r.raw.isEmpty <;> simp [h]

theorem extract_eq_error (hopening : opening <:+: v) (hnone : first? v = none) :
    extract v = .error ⟨v⟩ := by
  rw [extract, includes_iff_infix.2 hopening, hnone]
  rfl

/-- What is left of the text between the parentheses: no quotes in it, and no blanks at its ends. -/
structure Bare (inner raw : Text) : Prop where
  split : ∃ lead trail, inner.filter (fun c => c ≠ '"' ∧ c ≠ '\'') = lead ++ raw ++ trail ∧
    ∀ c ∈ lead ++ trail, isBlank c = true
  trimmed : Trimmed raw

theorem bare_raw (r : UrlReference) : Bare r.inner r.raw := by
  have hquotes : r.inner.filter (fun c => c ≠ '"' ∧ c ≠ '\'') = r.inner.filter (!isQuote ·) :=
    List.filter_congr fun c _ => by simp [isQuote, beq_eq_decide]
  obtain ⟨trail, htrail, hblank⟩ := exists_trail (r.inner.filter (!isQuote ·))
  refine ⟨⟨_, trail, hquotes.trans htrail, fun c hc => ?_⟩, trimmed_trim _⟩
  obtain hc | hc := List.mem_append.1 hc
  · exact List.mem_takeWhile_imp hc
  · exact hblank c hc

/-- A token ends at the first `)` behind its opening. -/
theorem isLeast_close (hclose : ')' ∉ r.inner) :
    IsLeast {j | r.start + 4 ≤ j ∧ OccursAt [')'] j r.value}
      (r.start + 4 + byteSize r.inner) := by
  have hopen : byteSize opening = 4 := rfl
  have hvalue : r.value = (r.before ++ opening) ++ (r.inner ++ ')' :: r.after) := by simp [value]
  refine ⟨⟨Nat.le_add_right _ _, r.before ++ opening ++ r.inner, r.after, ?_, ?_⟩, ?_⟩
  · simp [hvalue]
  · simp only [byteSize_append, hopen, start]
  · rintro j ⟨hle, b, a, hb, rfl⟩
    by_contra hlt
    rw [hvalue, List.append_assoc b, List.singleton_append] at hb
    obtain ⟨m, rfl, hrest⟩ := exists_between_of_append_eq hb (by
      simpa only [byteSize_append, hopen, start] using hle)
    simp only [byteSize_append, hopen, start] at hlt
    obtain ⟨m', hinner, htail⟩ := exists_between_of_append_eq hrest.symm (by omega)
    cases m' with
    | nil => exact hlt (by simp [hinner])
    | cons c m' =>
      rw [List.cons_append] at htail
      refine hclose ?_
      rw [hinner, (List.cons.inj htail).1]
      simp

/-- Every `url(` before the leftmost candidate is closed at once. -/
theorem closed_of_lt_start (hleast : ∀ i, CandidateAt r.value i → r.start ≤ i)
    (hi : OccursAt opening i r.value) (hlt : i < r.start) :
    OccursAt (opening ++ [')']) i r.value := by
  obtain ⟨b, a, hb, rfl⟩ := hi
  have hvalue : r.value = r.before ++ (opening ++ (r.inner ++ ')' :: r.after)) := by simp [value]
  have hsplit := hvalue.symm.trans (hb.trans (List.append_assoc b opening a))
  obtain ⟨m, hbefore, hrest⟩ := exists_between_of_append_eq hsplit.symm (Nat.le_of_lt hlt)
  -- no two openings overlap, so that what follows this one reaches as far as the token
  obtain ⟨m', hm, rfl⟩ := exists_between_of_append_eq (hrest.trans (List.append_assoc _ _ _).symm)
    (by rw [byteSize_append]; omega)
  cases m' with
  | nil =>
    have hsize := congrArg byteSize hm
    have hstart := congrArg byteSize hbefore
    simp only [byteSize_append, byteSize_nil, start] at hsize hstart hlt
    omega
  | cons c m' =>
    by_cases hc : c = ')'
    · exact ⟨b, m' ++ (r.inner ++ ')' :: r.after), by rw [hb, hc]; simp, rfl⟩
    · refine absurd (hleast (byteSize b) ⟨b, c, m' ++ (r.inner ++ ')' :: r.after), ?_, rfl, hc, ?_⟩)
        (Nat.not_le_of_lt hlt)
      · rw [hb]
        simp
      · simp

/-- **What is extracted is the leftmost token.** Nothing, if the value has no `url(`. Otherwise the
token at the least candidate, up to its first `)`, with what is left of the text between them
without quotes and blanks; an error if that is nothing, or if there is no candidate. Every `url(`
before the token is closed at once. -/
theorem extract_leftmost (v : Text) :
    (extract v = .ok none ↔ ¬opening <:+: v) ∧
    (opening <:+: v → (∀ i, ¬CandidateAt v i) → extract v = .error ⟨v⟩) ∧
    ((∃ i, CandidateAt v i) → ∃ i j inner raw,
      IsLeast {i | CandidateAt v i} i ∧ IsLeast {j | i + 4 ≤ j ∧ OccursAt [')'] j v} j ∧
      slice? (i + 4) j v = some inner ∧ Bare inner raw ∧
      (raw = [] → extract v = .error ⟨v⟩) ∧
      (raw ≠ [] → ∃ r, extract v = .ok (some r) ∧ r.raw = raw ∧ r.start = i ∧ r.stop = j + 1 ∧
        slice? i (j + 1) v = some (opening ++ inner ++ [')']))) ∧
    (∀ r, extract v = .ok (some r) →
      (∀ i < r.start, OccursAt opening i v → OccursAt (opening ++ [')']) i v) ∧
      ∀ c ∈ r.raw, c ≠ '"' ∧ c ≠ '\'' ∧ c ≠ ')') := by
  refine ⟨extract_eq_ok_none_iff, ?_, ?_, ?_⟩
  · intro hopening hnone
    exact extract_eq_error hopening (first?_eq_none_iff.2 hnone)
  · rintro ⟨i, hi⟩
    cases hfirst : first? v with
    | none => exact absurd hi (first?_eq_none_iff.1 hfirst i)
    | some r =>
      obtain ⟨rfl, hne, hclose, hleast⟩ := first?_spec hfirst
      have hstop : r.start + 4 + byteSize r.inner + 1 = r.stop := by
        simp only [stop, byteSize_append, byteSize_cons, byteSize_nil]
        have hopen : byteSize opening = 4 := rfl
        have hsize : Char.utf8Size ')' = 1 := rfl
        omega
      have hinner : slice? (r.start + 4) (r.start + 4 + byteSize r.inner) r.value =
          some r.inner := by
        refine slice?_of_eq (a := r.before ++ opening) (c := ')' :: r.after) ?_ ?_ ?_
        · simp [value]
        · rw [byteSize_append]; rfl
        · rw [byteSize_append]; rfl
      refine ⟨r.start, r.start + 4 + byteSize r.inner, r.inner, r.raw,
        ⟨candidateAt_start hne hclose, hleast⟩, isLeast_close hclose, hinner, bare_raw r,
        fun hraw => ?_, fun hraw => ⟨r, ?_, rfl, rfl, hstop.symm, ?_⟩⟩
      · rw [extract_of_first? hfirst, hraw]
        rfl
      · rw [extract_of_first? hfirst, if_neg (by simpa using hraw)]
      · rw [hstop]
        exact slice?_append_append _ _ _
  · intro r hr
    obtain ⟨hfirst, hclose⟩ := first?_of_extract hr
    obtain ⟨rfl, -, -, hleast⟩ := first?_spec hfirst
    refine ⟨fun i hlt hi => closed_of_lt_start hleast hi hlt, fun c hc => ?_⟩
    obtain ⟨hinner, hquote⟩ := mem_raw hc
    refine ⟨?_, ?_, ?_⟩
    · rintro rfl
      cases hquote
    · rintro rfl
      cases hquote
    · rintro rfl
      exact hclose hinner

/-- Openings that are closed at once, and one within the token. -/
theorem extract_leftmost_nested :
    let v : Text := "é url() url( \"url(a'b.png\" )url(c)".toList
    let r : UrlReference := ⟨"é url() ".toList, " \"url(a'b.png\" ".toList, "url(c)".toList⟩
    IsLeast {i | CandidateAt v i} 9 ∧ IsLeast {j | 13 ≤ j ∧ OccursAt [')'] j v} 28 ∧
      extract v = .ok (some r) ∧ r.raw = "url(ab.png".toList := by
  intro v r
  have hfound : extract v = .ok (some r) := by decide +kernel
  have hcandidate : ∃ i, CandidateAt v i :=
    ⟨9, "é url() ".toList, ' ', _, rfl, rfl, by decide, by decide⟩
  obtain ⟨-, -, hleftmost, -⟩ := extract_leftmost v
  obtain ⟨i, j, inner, raw, hi, hj, -, -, hblank, hok⟩ := hleftmost hcandidate
  have hraw : raw ≠ [] := by
    intro hnil
    rw [hblank hnil] at hfound
    cases hfound
  obtain ⟨r', hr', -, hstart, hstop, -⟩ := hok hraw
  rw [hfound] at hr'
  cases hr'
  obtain rfl : 9 = i := hstart
  obtain rfl : 28 = j := Nat.succ.inj hstop
  exact ⟨hi, hj, hfound, by decide +kernel⟩

end UrlReference

end StyleAssets
