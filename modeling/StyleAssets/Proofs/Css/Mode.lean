import StyleAssets.Proofs.Css.UrlForm

/-!
# What `url(` stands in

How the text behind the characters `url(` is read depends on what precedes them in one respect only:
whether they stand in a word, in a string, in a comment or in a broken url, or begin a url.

* `Runs` — a length that goes on past a `u` is told from what follows `url(`.
* `Mode` — what the characters stand in; `Mode.next` says how much of what follows belongs to the
  same token.
* `front_continues` — the first token of a text, if it goes on past a `u`.
* `exists_mode` — **main result**: whatever precedes `url(`, what follows it is read in one of the
  modes.
-/

namespace StyleAssets.Css

/-! ## Lexical forms that go on -/

/-- A length that goes on past a `u` is told by `g` from what follows `url(`. -/
def Runs (f g : Text → Nat) : Prop :=
  ∀ w x, w.length < f (w ++ 'u' :: x) → ∀ y, f (w ++ 'u' :: 'r' :: 'l' :: '(' :: y) = w.length + g y

theorem isStop_u : IsStop 'u' := .inl rfl

theorem Forks.runs {f g : Text → Nat} (h : Forks 'u' f g) : Runs f g := by
  intro w x hlt y
  cases h w with
  | ends n hle h => exact absurd (h x ▸ hlt) (Nat.not_lt.2 hle)
  | goesOn _ hurl => exact hurl rfl y

theorem urlLength?_runs {w x : Text} {n : Nat} (hurl : urlLength? (w ++ 'u' :: x) = some n)
    (h : w.length < n) (y : Text) : urlLength? (w ++ 'u' :: 'r' :: 'l' :: '(' :: y) =
      some (w.length + (brokenUrlLength y + 4)) := by
  obtain hquoted | hlength := urlLength?_cases isStop_u w
  · rw [hquoted] at hurl
    cases hurl
  · rw [hlength] at hurl ⊢
    cases hurl
    rw [(unquotedLength_forks isStop_u).runs w x h y]

/-! ## What holds a url -/

/-- What the characters `url(` stand in: a word that ends before the parenthesis, the name of
another function, the name `url` itself, a string, a comment or a broken url. -/
inductive Mode where
  | word
  | call
  | url
  | string (quote : Char) (h : quote = '"' ∨ quote = '\'')
  | comment
  | broken

/-- The role of the token that holds `url`, and how many characters from the parenthesis on belong
to it. -/
def Mode.next : Mode → Text → Role × Nat
  | word, _ => (.plain, 0)
  | call, _ => (.opening .round, 1)
  | url, y =>
    match urlLength? y with
    | some more => (.plain, more + 1)
    | none => (.opening .round, 1)
  | string quote _, y => (.plain, stringLength quote y + 1)
  | comment, y => (.blank, commentLength y + 1)
  | broken, y => (.plain, brokenUrlLength y + 1)

/-- A token that goes on past a `u` is told by a mode from what follows `url(`. -/
def Continues (f : Text → Role × Nat) : Prop :=
  ∀ w x, w.length < (f (w ++ 'u' :: x)).2 →
    ∃ m : Mode, ∀ y, f (w ++ 'u' :: 'r' :: 'l' :: '(' :: y) =
      ((m.next y).1, w.length + 3 + (m.next y).2)

theorem nameToken_of_runs {w x : Text} (h : w.length < nameLength (w ++ 'u' :: x)) :
    ∃ m : Mode, ∀ y, nameToken (w ++ 'u' :: 'r' :: 'l' :: '(' :: y) =
      ((m.next y).1, w.length + 3 + (m.next y).2) := by
  have hname (y : Text) := (nameLength_forks isStop_u).runs w x h y
  have htake (y : Text) : (w ++ 'u' :: 'r' :: 'l' :: '(' :: y).take (w.length + 3) =
      w ++ ['u', 'r', 'l'] := by
    rw [List.take_length_add_append]
    rfl
  have hparen (y : Text) : (w ++ 'u' :: 'r' :: 'l' :: '(' :: y).drop
      (nameLength (w ++ 'u' :: 'r' :: 'l' :: '(' :: y)) = '(' :: y := by
    rw [hname, List.drop_length_add_append]
    rfl
  by_cases hurl : (nameValue (w ++ ['u', 'r', 'l'])).map Char.toLower = ['u', 'r', 'l']
  · refine ⟨.url, fun y => ?_⟩
    rw [nameToken_of_paren (hparen y), hname, htake, if_pos hurl, Mode.next]
    cases urlLength? y with
    | none => rfl
    | some more =>
      simp only [Prod.mk.injEq, true_and]
      omega
  · refine ⟨.call, fun y => ?_⟩
    rw [nameToken_of_paren (hparen y), hname, htake, if_neg hurl]
    rfl

theorem nameToken_continues : Continues nameToken := by
  intro w x h
  obtain hlong | ⟨t, hle, ht⟩ | ⟨n, rest, hlength, hurl⟩ := nameToken_stop_cases isStop_u w
  · exact nameToken_of_runs (hlong x)
  · rw [ht] at h
    exact absurd h (Nat.not_lt.2 hle)
  · -- a url that goes on past the `u` is broken by the parenthesis
    refine ⟨.broken, fun y => ?_⟩
    rw [hurl] at h ⊢
    cases hmore : urlLength? (rest ++ 'u' :: x) with
    | none =>
      rw [hmore] at h
      simp only at h
      omega
    | some more =>
      rw [hmore] at h
      simp only at h
      rw [urlLength?_runs hmore (by omega) y]
      simp only [Mode.next, Prod.mk.injEq, true_and]
      omega

/-- A word that ends before the parenthesis. -/
theorem exists_word {f : Text → Nat} (hf : Runs f fun _ => 3) {w x : Text}
    (h : w.length < f (w ++ 'u' :: x)) : ∃ m : Mode, ∀ y,
      (Role.plain, f (w ++ 'u' :: 'r' :: 'l' :: '(' :: y)) =
        ((m.next y).1, w.length + 3 + (m.next y).2) :=
  ⟨.word, fun y => by rw [hf w x h y]; rfl⟩

theorem plainFront_continues (c : Char) : Continues (plainFront c) := by
  intro w x h
  obtain ⟨n, hle, hends⟩ | hname | hnumber | hname := plainFront_stop_cases isStop_u c w
  · rw [hends] at h
    exact absurd h (Nat.not_lt.2 hle)
  · rw [hname] at h
    simp only [hname]
    exact exists_word (nameLength_forks isStop_u).runs h
  · rw [hnumber] at h
    have hlong : (c :: w).length < numberLength (c :: w ++ 'u' :: x) := Nat.add_lt_of_lt_sub h
    refine ⟨.word, fun y => ?_⟩
    rw [hnumber, (numberLength_forks isStop_u).runs (c :: w) x hlong y]
    rfl
  · rw [hname] at h
    have hlong : (c :: w).length < (nameToken (c :: w ++ 'u' :: x)).2 := Nat.add_lt_of_lt_sub h
    obtain ⟨m, hm⟩ := nameToken_continues (c :: w) x hlong
    refine ⟨m, fun y => ?_⟩
    rw [hname, hm, List.length_cons]
    simp only [Prod.mk.injEq, true_and]
    omega

/-- **The first token of a text**, if it goes on past a `u`. -/
theorem front_continues (c : Char) : Continues (front c) := by
  intro w x h
  obtain ⟨t, -, hle, hends⟩ | ⟨hquote, hstring⟩ | ⟨w, rfl, hcomment⟩ | hplain :=
    front_stop_cases isStop_u c w
  · rw [hends] at h
    exact absurd h (Nat.not_lt.2 hle)
  · rw [hstring] at h
    refine ⟨.string c hquote, fun y => ?_⟩
    rw [hstring, (stringLength_forks isStop_u hquote).runs w x h y]
    simp only [Mode.next, Prod.mk.injEq, true_and]
    omega
  · rw [hcomment] at h
    refine ⟨.comment, fun y => ?_⟩
    rw [hcomment, (commentLength_forks isStop_u).runs w x (Nat.lt_of_succ_lt_succ h) y]
    simp only [Mode.next, List.length_cons, Prod.mk.injEq, true_and]
    omega
  · simp only [hplain] at h ⊢
    exact plainFront_continues c w x h

/-- **Whatever precedes `url(`**, what follows it is read in one of the modes. -/
theorem exists_mode (front : Text) : ∃ (pre : List Token) (before : Text) (m : Mode),
    front = textOf pre ++ before ∧ ∀ y, tokens (front ++ 'u' :: 'r' :: 'l' :: '(' :: y) =
      pre ++ ⟨(m.next y).1, before ++ 'u' :: 'r' :: 'l' :: ('(' :: y).take (m.next y).2⟩ ::
        tokens (('(' :: y).drop (m.next y).2) := by
  match front with
  | [] =>
    refine ⟨[], [], .url, rfl, fun y => ?_⟩
    rw [List.nil_append, tokens_cons, front_url, Mode.next]
    cases urlLength? y with
    | none => rfl
    | some more =>
      dsimp only
      rw [Nat.add_comm 3]
      rfl
  | c :: w =>
    by_cases hlong : w.length < (Css.front c (w ++ 'u' :: [])).2
    · obtain ⟨m, hm⟩ := front_continues c w [] hlong
      refine ⟨[], c :: w, m, rfl, fun y => ?_⟩
      rw [List.cons_append, tokens_cons, hm, Nat.add_assoc, List.take_length_add_append,
        List.drop_length_add_append, Nat.add_comm 3]
      rfl
    · have hle : (Css.front c (w ++ 'u' :: [])).2 ≤ w.length := Nat.not_lt.1 hlong
      have hfirst (x : Text) := front_settled isStop_u x hle
      generalize Css.front c (w ++ 'u' :: []) = first at hle hfirst
      obtain ⟨pre, before, m, hfront, hm⟩ := exists_mode (w.drop first.2)
      refine ⟨⟨first.1, c :: w.take first.2⟩ :: pre, before, m, ?_, fun y => ?_⟩
      · rw [textOf_cons, List.append_assoc, ← hfront, List.cons_append, List.take_append_drop]
      · rw [List.cons_append, tokens_cons, hfirst, List.take_append_of_le_length hle,
          drop_append_cons hle, hm]
        rfl
termination_by front.length
decreasing_by simp only [List.length_drop, List.length_cons]; omega

end StyleAssets.Css
