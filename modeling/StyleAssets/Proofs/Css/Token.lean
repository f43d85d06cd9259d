import StyleAssets.Css.Scan

/-!
# Facts about tokens

* `Css.exists_front` — a token of a text is read off its first character and what follows.
* `Css.utf8Size_of_front` — blanks, comments and colons start with a character of one byte, so that
  a cut one byte after their start cuts no character.
-/

namespace StyleAssets.Css

theorem nameToken_role (t : Text) :
    (nameToken t).1 = .plain ∨ (nameToken t).1 = .opening .round := by
  simp only [nameToken]
  split
  · split
    · split
      · exact .inl rfl
      · exact .inr rfl
    · exact .inr rfl
  · exact .inl rfl

theorem plainFront_role (c : Char) (t : Text) :
    (plainFront c t).1 = .plain ∨ (plainFront c t).1 = .opening .round := by
  unfold plainFront
  iterate 5
    split
    · exact .inl rfl
  split
  · exact nameToken_role (c :: t)
  · exact .inl rfl

theorem eq_of_single?_eq_colon {c : Char} (h : single? c = some .colon) : c = ':' := by
  unfold single? at h
  split at h
  · rfl
  all_goals cases h

theorem single?_ne_blank (c : Char) : single? c ≠ some .blank := by
  unfold single?
  split
  all_goals exact nofun

theorem utf8Size_of_isSpace {c : Char} (h : isSpace c = true) : c.utf8Size = 1 := by
  simp only [isSpace, isNewline, Bool.or_eq_true, beq_iff_eq] at h
  rcases h with (rfl | rfl) | ((rfl | rfl) | rfl) <;> rfl

theorem utf8Size_of_front {c : Char} {t : Text}
    (h : (front c t).1 = .blank ∨ (front c t).1 = .colon) : c.utf8Size = 1 := by
  unfold front at h
  split at h
  · exact utf8Size_of_isSpace ‹_›
  split at h
  · simp at h
  split at h
  · rename_i hcomment
    simp only [Bool.and_eq_true, beq_iff_eq] at hcomment
    rw [hcomment.1]
    rfl
  split at h
  · rename_i role hrole
    rcases h with h | h
    · exact absurd (hrole.trans (congrArg some h)) (single?_ne_blank c)
    · rw [eq_of_single?_eq_colon (hrole.trans (congrArg some h))]
      rfl
  · rcases plainFront_role c t with hp | hp <;> simp [hp] at h

theorem exists_front {t : Text} {token : Token} (h : token ∈ tokens t) :
    ∃ c rest, token = ⟨(front c rest).1, c :: rest.take (front c rest).2⟩ := by
  fun_induction tokens t with
  | case1 => cases h
  | case2 c rest ih =>
    rcases List.mem_cons.1 h with rfl | h
    · exact ⟨c, rest, rfl⟩
    · exact ih h

theorem front_cases (c : Char) (t : Text) :
    (front c t).1 ∈ [.plain, .blank, .opening .round] ∨
      ∃ role, single? c = some role ∧ front c t = (role, 0) := by
  unfold front
  split
  · exact .inl (by simp)
  split
  · exact .inl (by simp)
  split
  · exact .inl (by simp)
  split
  · rename_i role hrole
    exact .inr ⟨role, hrole, rfl⟩
  · rcases plainFront_role c t with h | h
    · exact .inl (by simp [h])
    · exact .inl (by simp [h])

/-- A token that bears on the structure, and is no function, is one character. -/
theorem text_of_single {t : Text} {token : Token} (h : token ∈ tokens t)
    (hrole : token.role ∉ [.plain, .blank, .opening .round]) :
    ∃ c, single? c = some token.role ∧ token.text = [c] := by
  obtain ⟨c, rest, rfl⟩ := exists_front h
  rcases front_cases c rest with hfront | ⟨role, hsingle, hfront⟩
  · exact absurd hfront hrole
  · refine ⟨c, ?_, ?_⟩
    · rw [hfront, hsingle]
    · rw [hfront, List.take_zero]

/-- A blank or a colon starts with a character of one byte. -/
def Token.Small (t : Token) : Prop :=
  t.role = .blank ∨ t.role = .colon → ∃ c rest, t.text = c :: rest ∧ c.utf8Size = 1

theorem small_of_mem_tokens {t : Text} {token : Token} (h : token ∈ tokens t) : token.Small := by
  obtain ⟨c, rest, rfl⟩ := exists_front h
  exact fun hrole => ⟨c, rest.take (front c rest).2, rfl, utf8Size_of_front hrole⟩

theorem small_plain (t : Text) : Token.Small ⟨.plain, t⟩ := by
  intro h
  simp at h

/-! ## Rows of tokens -/

@[simp] theorem textOf_nil : textOf [] = [] := rfl

@[simp] theorem textOf_cons (t : Token) (ts : List Token) :
    textOf (t :: ts) = t.text ++ textOf ts := rfl

@[simp] theorem textOf_append (ts us : List Token) : textOf (ts ++ us) = textOf ts ++ textOf us :=
  List.flatMap_append

theorem textOf_tokens (t : Text) : textOf (tokens t) = t := text_tokens t

end StyleAssets.Css
