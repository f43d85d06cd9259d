import StyleAssets.Proofs.Css.Lookahead

/-!
# Tokens that stay

A token that ends before `u`, `)`, `;`, `}` or a quote does not depend on what follows that
character.

* `nameToken_stop_cases`, `plainFront_stop_cases`, `front_stop_cases` — what a token can be that
  comes to such a character.
* `front_settled` — the first token of a text.
* `Cut` — some tokens are cut off the front of a text; `Cut.settled` says that they stay.
-/

namespace StyleAssets.Css

variable {d : Char}

/-! ## Names and numbers -/

/-- A name starts with a character that may start one, unless there are escapes or hyphens. -/
theorem startsName_of_ne {c : Char} (hhyphen : c ≠ '-') (hescape : c ≠ '\\') (t : Text) :
    startsName (c :: t) = isNameStart c := by
  cases t <;> simp [startsName, hhyphen]

theorem startsName_stop (hd : IsStop d) (w x x' : Text) :
    startsName (w ++ d :: x') = startsName (w ++ d :: x) := by
  match w with
  | [] => obtain rfl | rfl | rfl | rfl | rfl | rfl := hd <;> rw [List.nil_append, List.nil_append,
      startsName_of_ne (by decide) (by decide), startsName_of_ne (by decide) (by decide)]
  | c :: w =>
    by_cases hescape : c = '\\'
    · subst hescape
      simp only [List.cons_append, startsName, startsLine_stop hd]
    by_cases hhyphen : c = '-'
    · subst hhyphen
      match w with
      | [] => obtain rfl | rfl | rfl | rfl | rfl | rfl := hd <;> simp [startsName]
      | c' :: w =>
        by_cases hescape : c' = '\\'
        · subst hescape
          simp only [List.cons_append, startsName, startsLine_stop hd]
        · simp [startsName]
    · rw [List.cons_append, List.cons_append, startsName_of_ne hhyphen hescape,
        startsName_of_ne hhyphen hescape]

theorem unitLength_forks (hd : IsStop d) : Forks d unitLength fun _ => 3 := by
  intro w
  by_cases hpercent : w.head? = some '%'
  · obtain ⟨rest, rfl⟩ := List.head?_eq_some_iff.1 hpercent
    exact .ends 1 (Nat.succ_pos _) fun x => rfl
  have hunit (x : Text) : unitLength (w ++ d :: x) =
      if startsName (w ++ d :: []) then nameLength (w ++ d :: x) else 0 := by
    rw [startsName_stop hd w x [], unitLength]
    intro rest hrest
    cases w with
    | nil => obtain rfl | rfl | rfl | rfl | rfl | rfl := hd <;> cases hrest
    | cons c w => exact hpercent (congrArg some (List.cons.inj hrest).1)
  by_cases hname : startsName (w ++ d :: []) = true
  · refine (nameLength_forks hd w).after 0 rfl fun x => ?_
    rw [hunit, if_pos hname, Nat.add_zero]
  · refine .ends 0 (Nat.zero_le _) fun x => ?_
    rw [hunit, if_neg hname]

theorem digitsLength_le (t : Text) : digitsLength t ≤ t.length := length_takeWhile_le _ t

theorem fractionLength_le (t : Text) : fractionLength t ≤ t.length := by
  unfold fractionLength
  split
  · rename_i t
    have := digitsLength_le t
    simp only [List.length_cons]
    split
    · omega
    · omega
  · omega

theorem exponentLength_le (t : Text) : exponentLength t ≤ t.length := by
  unfold exponentLength
  split
  · rename_i c t
    have hsign := signLength_le t
    have hdigits := digitsLength_le (t.drop (signLength t))
    rw [List.length_drop] at hdigits
    simp only [List.length_cons]
    split
    · split
      · omega
      · omega
    · omega
  · omega

/-- A number without its unit. -/
def plainLength (t : Text) : Nat :=
  let whole := signLength t + digitsLength (t.drop (signLength t))
  let mantissa := whole + fractionLength (t.drop whole)
  mantissa + exponentLength (t.drop mantissa)

theorem numberLength_eq (t : Text) :
    numberLength t = plainLength t + unitLength (t.drop (plainLength t)) := rfl

theorem plainLength_stop (hd : IsStop d) (w x : Text) :
    plainLength (w ++ d :: x) = plainLength w ∧ plainLength w ≤ w.length := by
  have hsign := signLength_le w
  have hwhole := digitsLength_le (w.drop (signLength w))
  rw [List.length_drop] at hwhole
  have hmantissa := fractionLength_le (w.drop (signLength w + digitsLength (w.drop (signLength w))))
  rw [List.length_drop] at hmantissa
  have hexponent := exponentLength_le (w.drop (signLength w + digitsLength (w.drop (signLength w)) +
    fractionLength (w.drop (signLength w + digitsLength (w.drop (signLength w))))))
  rw [List.length_drop] at hexponent
  constructor
  · unfold plainLength
    simp only [signLength_stop hd, drop_append_cons hsign, digitsLength_stop hd]
    rw [drop_append_cons (by omega), fractionLength_stop hd, drop_append_cons (by omega),
      exponentLength_stop hd]
  · unfold plainLength
    simp only
    omega

theorem numberLength_forks (hd : IsStop d) : Forks d numberLength fun _ => 3 := by
  intro w
  have hle := (plainLength_stop hd w []).2
  refine (unitLength_forks hd (w.drop (plainLength w))).after (plainLength w) ?_ fun x => ?_
  · rw [List.length_drop, Nat.sub_add_cancel hle]
  · rw [numberLength_eq, (plainLength_stop hd w x).1, drop_append_cons hle, Nat.add_comm]

theorem nameToken_of_paren {t rest : Text} (h : t.drop (nameLength t) = '(' :: rest) :
    nameToken t = if (nameValue (t.take (nameLength t))).map Char.toLower = ['u', 'r', 'l'] then
        match urlLength? rest with
        | some more => (.plain, nameLength t + 1 + more)
        | none => (.opening .round, nameLength t + 1)
      else (.opening .round, nameLength t + 1) := by
  unfold nameToken
  dsimp only
  generalize t.drop (nameLength t) = behind at h
  subst h
  rfl

theorem nameToken_of_word {t : Text} (h : (t.drop (nameLength t)).head? ≠ some '(') :
    nameToken t = (.plain, nameLength t) := by
  unfold nameToken
  simp only
  split
  · rename_i hparen
    rw [hparen] at h
    exact absurd rfl h
  · rfl

theorem nameLength_le_nameToken (t : Text) : nameLength t ≤ (nameToken t).2 := by
  by_cases h : (t.drop (nameLength t)).head? = some '('
  · obtain ⟨rest, hrest⟩ := List.head?_eq_some_iff.1 h
    rw [nameToken_of_paren hrest]
    split
    · split
      · exact Nat.le_trans (Nat.le_succ _) (Nat.le_add_right _ _)
      · exact Nat.le_succ _
    · exact Nat.le_succ _
  · rw [nameToken_of_word h]

/-- A name that comes to the character goes on past it, or what it begins is over before, or it is
`url` with its parenthesis. -/
theorem nameToken_stop_cases (hd : IsStop d) (w : Text) :
    (∀ x, w.length < nameLength (w ++ d :: x)) ∨
    (∃ t, t.2 ≤ w.length ∧ ∀ x, nameToken (w ++ d :: x) = t) ∨
    ∃ n rest, w.length = n + 1 + rest.length ∧ ∀ x, nameToken (w ++ d :: x) =
      match urlLength? (rest ++ d :: x) with
      | some more => (.plain, n + 1 + more)
      | none => (.opening .round, n + 1) := by
  cases nameLength_forks hd w with
  | goesOn hlt _ => exact .inl hlt
  | ends n hle hname =>
    refine .inr ?_
    have hdrop (x : Text) : (w ++ d :: x).drop (nameLength (w ++ d :: x)) = w.drop n ++ d :: x := by
      rw [hname, drop_append_cons hle]
    by_cases hparen : (w.drop n).head? = some '('
    · obtain ⟨rest, hrest⟩ := List.head?_eq_some_iff.1 hparen
      have hlength := congrArg List.length hrest
      rw [List.length_drop, List.length_cons] at hlength
      have hbehind (x : Text) : (w ++ d :: x).drop (nameLength (w ++ d :: x)) =
          '(' :: (rest ++ d :: x) := by
        rw [hdrop, hrest, List.cons_append]
      have hcall (x : Text) := nameToken_of_paren (hbehind x)
      simp only [hname, List.take_append_of_le_length hle] at hcall
      by_cases hurl : (nameValue (w.take n)).map Char.toLower = ['u', 'r', 'l']
      · refine .inr ⟨n, rest, by omega, fun x => ?_⟩
        rw [hcall, if_pos hurl]
      · refine .inl ⟨(.opening .round, n + 1), ?_, fun x => ?_⟩
        · show n + 1 ≤ w.length
          omega
        · rw [hcall, if_neg hurl]
    · refine .inl ⟨(.plain, n), hle, fun x => ?_⟩
      rw [nameToken_of_word, hname]
      -- the character is no parenthesis either
      rw [hdrop]
      cases hrest : w.drop n with
      | nil => obtain rfl | rfl | rfl | rfl | rfl | rfl := hd <;> simp
      | cons c rest => rwa [hrest] at hparen

theorem nameToken_settled (hd : IsStop d) {w x : Text} (x' : Text)
    (h : (nameToken (w ++ d :: x)).2 ≤ w.length) :
    nameToken (w ++ d :: x') = nameToken (w ++ d :: x) := by
  obtain hlong | ⟨t, -, ht⟩ | ⟨n, rest, hlength, hurl⟩ := nameToken_stop_cases hd w
  · exact absurd (Nat.le_trans (nameLength_le_nameToken _) h) (Nat.not_le.2 (hlong x))
  · rw [ht, ht]
  · rw [hurl] at h
    rw [hurl, hurl, urlLength?_settled hd x']
    intro more hmore
    rw [hmore] at h
    simp only at h
    omega

/-! ## The first token -/

/-- What can stand where no blank, string or comment begins: something that ends before the
character, a hash or an at-rule with its name, a number, or a name. -/
theorem plainFront_stop_cases (hd : IsStop d) (c : Char) (w : Text) :
    (∃ n ≤ w.length, ∀ x, plainFront c (w ++ d :: x) = (.plain, n)) ∨
    (∀ x, plainFront c (w ++ d :: x) = (.plain, nameLength (w ++ d :: x))) ∨
    (∀ x, plainFront c (w ++ d :: x) = (.plain, numberLength (c :: w ++ d :: x) - 1)) ∨
    ∀ x, plainFront c (w ++ d :: x) =
      ((nameToken (c :: w ++ d :: x)).1, (nameToken (c :: w ++ d :: x)).2 - 1) := by
  have hopening : d ∉ ['!', '-', '-'] := by
    obtain rfl | rfl | rfl | rfl | rfl | rfl := hd <;> decide
  have hclosing : d ∉ ['-', '>'] := by obtain rfl | rfl | rfl | rfl | rfl | rfl := hd <;> decide
  have hnumber (x : Text) : startsNumber (c :: (w ++ d :: x)) = startsNumber (c :: w) :=
    startsNumber_stop hd (c :: w) x
  have hname (x : Text) : startsName (c :: (w ++ d :: x)) = startsName (c :: (w ++ d :: [])) :=
    startsName_stop hd (c :: w) [] x
  unfold plainFront
  simp only [isPrefixOf_stop hopening, isPrefixOf_stop hclosing, hnumber, hname,
    startsName_stop hd w [], List.cons_append]
  split
  · exact .inr (.inl fun x => rfl)
  split
  · split
    · exact .inr (.inl fun x => rfl)
    · exact .inl ⟨0, Nat.zero_le _, fun x => rfl⟩
  split
  · rename_i hcomment
    have hprefix := List.isPrefixOf_iff_prefix.1 (Bool.and_eq_true_iff.1 hcomment).2
    exact .inl ⟨3, hprefix.length_le, fun x => rfl⟩
  split
  · exact .inr (.inr (.inl fun x => rfl))
  split
  · rename_i hcomment
    have hprefix := List.isPrefixOf_iff_prefix.1 (Bool.and_eq_true_iff.1 hcomment).2
    exact .inl ⟨2, hprefix.length_le, fun x => rfl⟩
  split
  · exact .inr (.inr (.inr fun x => rfl))
  · exact .inl ⟨0, Nat.zero_le _, fun x => rfl⟩

theorem plainFront_settled (hd : IsStop d) {c : Char} {w x : Text} (x' : Text)
    (h : (plainFront c (w ++ d :: x)).2 ≤ w.length) :
    plainFront c (w ++ d :: x') = plainFront c (w ++ d :: x) := by
  obtain ⟨n, -, hends⟩ | hname | hnumber | hname := plainFront_stop_cases hd c w
  · rw [hends, hends]
  · rw [hname] at h
    rw [hname, hname, (nameLength_forks hd).settled w x x' h]
  · rw [hnumber] at h
    rw [hnumber, hnumber, (numberLength_forks hd).settled (c :: w) x x' (Nat.sub_le_iff_le_add.1 h)]
  · rw [hname] at h
    rw [hname, hname, nameToken_settled hd (w := c :: w) x' (Nat.sub_le_iff_le_add.1 h)]

/-- What a token that meets the character is: one that ends before, a string, a comment, or neither
a blank nor one of these. -/
theorem front_stop_cases (hd : IsStop d) (c : Char) (w : Text) :
    (∃ t, (t.1 = .blank ∨ single? c = some t.1) ∧ t.2 ≤ w.length ∧
      ∀ x, front c (w ++ d :: x) = t) ∨
    ((c = '"' ∨ c = '\'') ∧ ∀ x, front c (w ++ d :: x) = (.plain, stringLength c (w ++ d :: x))) ∨
    (∃ w', w = '*' :: w' ∧
      ∀ x, front c (w ++ d :: x) = (.blank, commentLength (w' ++ d :: x) + 1)) ∨
    ∀ x, front c (w ++ d :: x) = plainFront c (w ++ d :: x) := by
  have hhead (x : Text) : ((w ++ d :: x).head? == some '*') = (w.head? == some '*') := by
    cases w with
    | nil => obtain rfl | rfl | rfl | rfl | rfl | rfl := hd <;> rfl
    | cons c' w => rfl
  unfold front
  simp only [takeWhile_stop (isSpace_stop hd), hhead]
  split
  · exact .inl ⟨_, .inl rfl, length_takeWhile_le isSpace w, fun x => rfl⟩
  split
  · rename_i hquote
    exact .inr (.inl ⟨by simpa using hquote, fun x => rfl⟩)
  split
  · rename_i hcomment
    obtain ⟨w', rfl⟩ := List.head?_eq_some_iff.1 (beq_iff_eq.1 (Bool.and_eq_true_iff.1 hcomment).2)
    exact .inr (.inr (.inl ⟨w', rfl, fun x => rfl⟩))
  split
  · rename_i role hrole
    exact .inl ⟨(role, 0), .inr hrole, Nat.zero_le _, fun x => rfl⟩
  · exact .inr (.inr (.inr fun x => rfl))

/-- **A token that ends before** does not depend on what follows. -/
theorem front_settled (hd : IsStop d) {c : Char} {w x : Text} (x' : Text)
    (h : (front c (w ++ d :: x)).2 ≤ w.length) :
    front c (w ++ d :: x') = front c (w ++ d :: x) := by
  obtain ⟨t, -, -, hends⟩ | ⟨hquote, hstring⟩ | ⟨w, rfl, hcomment⟩ | hplain :=
    front_stop_cases hd c w
  · rw [hends, hends]
  · rw [hstring] at h
    rw [hstring, hstring, (stringLength_forks hd hquote).settled w x x' h]
  · rw [hcomment] at h
    rw [hcomment, hcomment, (commentLength_forks hd).settled w x x' (Nat.le_of_succ_le_succ h)]
  · rw [hplain] at h
    rw [hplain, hplain, plainFront_settled hd x' h]

/-! ## Rows of tokens -/

/-- The text of some tokens, with more behind it, is read as these tokens. -/
def Cut (ts : List Token) (rest : Text) : Prop := tokens (textOf ts ++ rest) = ts ++ tokens rest

theorem tokens_cons (c : Char) (t : Text) : tokens (c :: t) =
    ⟨(front c t).1, c :: t.take (front c t).2⟩ :: tokens (t.drop (front c t).2) := by
  rw [tokens]

/-- What follows some tokens is read by itself. -/
theorem cut_of_tokens {t : Text} {ts us : List Token} (h : tokens t = ts ++ us) :
    us = tokens (textOf us) ∧ Cut ts (textOf us) := by
  have hus : us = tokens (textOf us) := by
    induction ts generalizing t with
    | nil =>
      have ht : us = tokens t := h.symm
      rw [ht, textOf_tokens]
    | cons token ts ih =>
      cases t with
      | nil =>
        rw [tokens] at h
        cases h
      | cons c t =>
        rw [tokens_cons] at h
        exact ih (List.cons.inj h).2
  refine ⟨hus, ?_⟩
  rw [Cut, ← textOf_append, ← h, textOf_tokens, h, ← hus]

/-- A token is cut off the front of a text. -/
def Token.Front (t : Token) (rest : Text) : Prop :=
  ∃ c w, t.text = c :: w ∧ front c (w ++ rest) = (t.role, w.length)

theorem Cut.cons {t : Token} {ts : List Token} {rest : Text} (ht : t.Front (textOf ts ++ rest))
    (hts : Cut ts rest) : Cut (t :: ts) rest := by
  obtain ⟨c, w, htext, hfront⟩ := ht
  rw [Cut, textOf_cons, htext, List.append_assoc, List.cons_append, tokens_cons, hfront,
    List.take_left, List.drop_left, hts, ← htext]
  rfl

theorem Cut.of_cons {t : Token} {ts : List Token} {rest : Text} (h : Cut (t :: ts) rest)
    (hrest : rest ≠ []) : t.Front (textOf ts ++ rest) ∧ Cut ts rest := by
  unfold Cut at h
  rw [textOf_cons, List.append_assoc] at h
  cases htext : t.text ++ (textOf ts ++ rest) with
  | nil => simp [hrest] at htext
  | cons c more =>
    rw [htext, tokens_cons] at h
    obtain ⟨hhead, htail⟩ := List.cons.inj h
    have hw : t.text = c :: more.take (front c more).2 := by rw [← hhead]
    have hmore : more.drop (front c more).2 = textOf ts ++ rest := by
      rw [hw, List.cons_append] at htext
      have hparts :=
        (List.take_append_drop (front c more).2 more).trans (List.cons.inj htext).2.symm
      exact List.append_cancel_left hparts
    have hlength : (more.take (front c more).2).length = (front c more).2 := by
      refine List.length_take_of_le ?_
      by_contra hlt
      rw [List.drop_eq_nil_of_le (by omega)] at hmore
      exact hrest (List.append_eq_nil_iff.1 hmore.symm).2
    refine ⟨⟨c, _, hw, ?_⟩, ?_⟩
    · rw [← hmore, List.take_append_drop, hlength, ← hhead]
    · rw [Cut, ← hmore]
      exact htail

/-- **Tokens stay** if what follows them begins with the same character as before. -/
theorem Cut.settled (hd : IsStop d) {ts : List Token} {x : Text} (h : Cut ts (d :: x)) (x' : Text) :
    Cut ts (d :: x') := by
  induction ts with
  | nil => rfl
  | cons t ts ih =>
    obtain ⟨⟨c, w, htext, hfront⟩, hts⟩ := h.of_cons (List.cons_ne_nil d x)
    refine .cons ⟨c, w, htext, ?_⟩ (ih hts)
    rw [← List.append_assoc] at hfront ⊢
    rw [← hfront]
    refine front_settled hd x' ?_
    rw [hfront, List.length_append]
    exact Nat.le_add_right _ _

theorem Cut.append {ts us : List Token} {rest : Text} (hts : Cut ts (textOf us ++ rest))
    (hus : Cut us rest) : Cut (ts ++ us) rest := by
  rw [Cut, textOf_append, List.append_assoc, hts, hus, List.append_assoc]

theorem Cut.left {ts us : List Token} {rest : Text} (h : Cut (ts ++ us) rest) :
    Cut ts (textOf us ++ rest) := by
  rw [Cut, textOf_append, List.append_assoc, List.append_assoc] at h
  have := (cut_of_tokens h).2
  rwa [textOf_append, textOf_tokens] at this

end StyleAssets.Css
