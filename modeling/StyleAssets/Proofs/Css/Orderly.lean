import StyleAssets.Proofs.Css.Mode
import StyleAssets.Proofs.Css.UrlExchange

/-!
# Urls that may stand anywhere

A url that holds no more than words, blanks and one pair of quotes may give way to another such url
whatever it stands in, be it a string, a comment or a url that CSS reads as one.

* `Quiet` — a text of blanks, words and punctuation; `exists_flat` gives its tokens.
* `Orderly` — a quiet text, or one with a pair of quotes in it.
* `Mode.exists_exchange` — an orderly url in each of the modes.
* `Orderly.exchanges` — **main result**: orderly urls may give way to each other.
-/

namespace StyleAssets.Css

open Text

/-! ## Texts without structure -/

/-- Quotes, brackets, and what else may begin or end more than a word. -/
def isNoisy (c : Char) : Bool :=
  isNewline c || ['"', '\'', '(', ')', '[', ']', '\x7b', '\x7d', ';', '*', '\\'].contains c

/-- A text of blanks, words and punctuation. -/
def Quiet (t : Text) : Prop := ∀ c ∈ t, isNoisy c = false

instance (t : Text) : Decidable (Quiet t) :=
  decidable_of_iff (t.all (!isNoisy ·) = true) (by simp [Quiet])

/-- A text that may stand in a url anywhere: without quotes, or with one pair of them. -/
inductive Orderly : Text → Prop
  | bare {t : Text} (h : Quiet t) : Orderly t
  | quoted {lead body trail : Text} {quote : Char} (hquote : quote = '"' ∨ quote = '\'')
      (hlead : Quiet lead) (hbody : Quiet body) (htrail : Quiet trail) :
      Orderly (lead ++ quote :: (body ++ quote :: trail))

variable {t w x : Text} {c d : Char}

/-- A character that ends what has no structure. -/
def IsEnd (d : Char) : Prop := d = ')' ∨ d = '"' ∨ d = '\''

theorem IsEnd.isStop (h : IsEnd d) : IsStop d := .inr (h.imp_right (.imp_right .inl))

theorem quiet_cons : Quiet (c :: t) ↔ isNoisy c = false ∧ Quiet t := List.forall_mem_cons

theorem Quiet.drop (h : Quiet t) (n : Nat) : Quiet (t.drop n) :=
  fun c hc => h c (List.mem_of_mem_drop hc)

theorem ne_of_not_noisy (h : isNoisy c = false) (hd : isNoisy d = true) : c ≠ d := by
  rintro rfl
  rw [h] at hd
  cases hd

theorem Quiet.not_mem (h : Quiet t) (hd : isNoisy d = true) : d ∉ t := by
  intro hmem
  exact ne_of_not_noisy (h d hmem) hd rfl

theorem Quiet.isNewline (h : Quiet t) : ∀ c ∈ t, isNewline c = false := by
  intro c hc
  exact (Bool.or_eq_false_iff.1 (h c hc)).1

/-! ## Their tokens -/

theorem nameLength_quiet (hd : IsEnd d) : ∀ {w : Text}, Quiet w → ∀ x : Text,
    nameLength (w ++ d :: x) ≤ w.length
  | [], _, x => by
    obtain rfl | rfl | rfl := hd <;> simp [nameLength, isNameChar, isNameStart]
  | c :: w, h, x => by
    obtain ⟨hc, hw⟩ := quiet_cons.1 h
    have hescape : c ≠ '\\' := ne_of_not_noisy hc rfl
    rw [List.cons_append, nameLength, List.length_cons]
    split
    · exact Nat.succ_le_succ (nameLength_quiet hd hw x)
    · simp [hescape]

theorem unitLength_quiet (hd : IsEnd d) (h : Quiet w) (x : Text) :
    unitLength (w ++ d :: x) ≤ w.length := by
  unfold unitLength
  split
  · rename_i rest hrest
    cases w with
    | nil => obtain rfl | rfl | rfl := hd <;> cases hrest
    | cons c w => simp
  · split
    · exact nameLength_quiet hd h x
    · exact Nat.zero_le _

theorem nameToken_quiet (hd : IsEnd d) (h : Quiet w) (x : Text) :
    nameToken (w ++ d :: x) = (.plain, nameLength (w ++ d :: x)) := by
  have hle := nameLength_quiet hd h x
  refine nameToken_of_word ?_
  rw [drop_append_cons hle]
  cases hrest : w.drop (nameLength (w ++ d :: x)) with
  | nil => obtain rfl | rfl | rfl := hd <;> simp
  | cons c rest =>
    have hquiet : Quiet (c :: rest) := hrest ▸ h.drop _
    simpa using ne_of_not_noisy (quiet_cons.1 hquiet).1 (d := '(') rfl

theorem plainFront_quiet (hd : IsEnd d) (h : Quiet (c :: w)) (x : Text) :
    (plainFront c (w ++ d :: x)).1 = .plain ∧ (plainFront c (w ++ d :: x)).2 ≤ w.length := by
  obtain ⟨n, hle, hends⟩ | hname | hnumber | hname := plainFront_stop_cases hd.isStop c w
  · rw [hends]
    exact ⟨rfl, hle⟩
  · rw [hname]
    exact ⟨rfl, nameLength_quiet hd (quiet_cons.1 h).2 x⟩
  · obtain ⟨hplain, hle⟩ := plainLength_stop hd.isStop (c :: w) x
    have hunit := unitLength_quiet hd (h.drop (plainLength (c :: w))) x
    rw [List.length_drop] at hunit
    rw [hnumber, numberLength_eq, hplain, drop_append_cons hle]
    refine ⟨rfl, Nat.sub_le_iff_le_add.2 ?_⟩
    rw [List.length_cons] at hunit hle
    omega
  · rw [hname, nameToken_quiet hd h]
    exact ⟨rfl, Nat.sub_le_iff_le_add.2 (nameLength_quiet hd h x)⟩

theorem single?_quiet (h : isNoisy c = false) {role : Role} (hrole : single? c = some role) :
    role = .colon := by
  unfold single? at hrole
  split at hrole
  · exact (Option.some.inj hrole).symm
  all_goals first | cases h | cases hrole

theorem front_quiet (hd : IsEnd d) (h : Quiet (c :: w)) (x : Text) :
    (Token.mk (front c (w ++ d :: x)).1 t).Flat ∧ (front c (w ++ d :: x)).2 ≤ w.length := by
  obtain ⟨hc, hw⟩ := quiet_cons.1 h
  obtain ⟨token, hrole, hle, hends⟩ | ⟨hquote, -⟩ | ⟨w, rfl, -⟩ | hplain :=
    front_stop_cases hd.isStop c w
  · rw [hends]
    obtain hblank | hsingle := hrole
    · exact ⟨.inr (.inr hblank), hle⟩
    · exact ⟨.inr (.inl (single?_quiet hc hsingle)), hle⟩
  · -- neither a string nor a comment begins in such a text
    obtain rfl | rfl := hquote <;> cases hc
  · cases (quiet_cons.1 hw).1
  · rw [hplain]
    obtain ⟨hrole, hle⟩ := plainFront_quiet hd h x
    exact ⟨.inl hrole, hle⟩

/-- **A text without structure** is read by itself, as tokens without structure. -/
theorem exists_flat (hd : IsEnd d) {t : Text} (h : Quiet t) (x : Text) :
    ∃ us, (∀ u ∈ us, u.Flat) ∧ textOf us = t ∧ Cut us (d :: x) := by
  match t with
  | [] => exact ⟨[], fun _ hu => absurd hu List.not_mem_nil, rfl, rfl⟩
  | c :: w =>
    obtain ⟨-, hle⟩ := front_quiet (t := []) hd h x
    have hrest := (quiet_cons.1 h).2.drop (front c (w ++ d :: x)).2
    obtain ⟨us, hflat, htext, hcut⟩ := exists_flat hd hrest x
    refine ⟨⟨(front c (w ++ d :: x)).1, c :: w.take (front c (w ++ d :: x)).2⟩ :: us, ?_, ?_, ?_⟩
    · exact List.forall_mem_cons.2 ⟨(front_quiet hd h x).1, hflat⟩
    · rw [textOf_cons, htext, List.cons_append, List.take_append_drop]
    · refine .cons ⟨c, _, rfl, ?_⟩ hcut
      rw [htext, ← List.append_assoc, List.take_append_drop, List.length_take_of_le hle]
termination_by t.length
decreasing_by simp only [List.length_drop, List.length_cons]; omega

/-! ## What a url holds -/

theorem stringLength_append {quote : Char}
    (h : ∀ c ∈ t, c ≠ quote ∧ isNewline c = false ∧ c ≠ '\\') (x : Text) :
    stringLength quote (t ++ x) = t.length + stringLength quote x := by
  induction t with
  | nil => rw [List.nil_append, List.length_nil, Nat.zero_add]
  | cons c t ih =>
    obtain ⟨⟨hother, hline, hescape⟩, ht⟩ := List.forall_mem_cons.1 h
    rw [List.cons_append, stringLength, if_neg (by simpa using hother), hline,
      if_neg (by decide), if_neg (by simpa using hescape), ih ht, List.length_cons,
      Nat.add_right_comm]

theorem stringLength_quiet {quote : Char} (h : Quiet t) (hquote : isNoisy quote = true) (x : Text) :
    stringLength quote (t ++ x) = t.length + stringLength quote x :=
  stringLength_append (fun c hc =>
    ⟨ne_of_not_noisy (h c hc) hquote, h.isNewline c hc, ne_of_not_noisy (h c hc) rfl⟩) x

theorem commentLength_append (h : ∀ c ∈ t, c ≠ '*') (x : Text) :
    commentLength (t ++ x) = t.length + commentLength x := by
  induction t with
  | nil => rw [List.nil_append, List.length_nil, Nat.zero_add]
  | cons c t ih =>
    obtain ⟨hc, ht⟩ := List.forall_mem_cons.1 h
    rw [List.cons_append, commentLength_cons, if_neg (fun hstar => hc hstar.1), ih ht,
      List.length_cons, Nat.add_right_comm]

theorem Orderly.mem (h : Orderly t) (hc : c ∈ t) : isNoisy c = false ∨ c = '"' ∨ c = '\'' := by
  cases h with
  | bare h => exact .inl (h c hc)
  | quoted hquote hlead hbody htrail =>
    simp only [List.mem_append, List.mem_cons] at hc
    obtain hc | rfl | hc | rfl | hc := hc
    · exact .inl (hlead c hc)
    · exact .inr hquote
    · exact .inl (hbody c hc)
    · exact .inr hquote
    · exact .inl (htrail c hc)

theorem Orderly.ne (h : Orderly t) (hc : c ∈ t) (hd : isNoisy d = true) (hdouble : d ≠ '"')
    (hsingle : d ≠ '\'') : c ≠ d := by
  rintro rfl
  obtain hquiet | rfl | rfl := h.mem hc
  · exact ne_of_not_noisy hquiet hd rfl
  · exact hdouble rfl
  · exact hsingle rfl

theorem Orderly.inner (h : Orderly t) : Inner ')' t := by
  refine ⟨fun hmem => h.ne hmem rfl (by decide) (by decide) rfl, fun hlast => ?_⟩
  exact h.ne (List.mem_of_mem_getLast? hlast) rfl (by decide) (by decide) rfl

theorem front_quote {quote : Char} (hquote : quote = '"' ∨ quote = '\'') (x : Text) :
    front quote x = (.plain, stringLength quote x) := by
  obtain rfl | rfl := hquote <;> rfl

theorem cut_string {quote : Char} (hquote : quote = '"' ∨ quote = '\'') (h : Quiet t)
    (rest : Text) : Cut [⟨.plain, quote :: (t ++ [quote])⟩] rest := by
  have hnoisy : isNoisy quote = true := by obtain rfl | rfl := hquote <;> rfl
  refine Cut.cons ⟨quote, t ++ [quote], rfl, ?_⟩ rfl
  rw [front_quote hquote, textOf_nil, List.nil_append, List.append_assoc,
    stringLength_quiet h hnoisy, List.singleton_append, stringLength, if_pos (beq_self_eq_true _),
    List.length_append]
  rfl

/-- Within parentheses an orderly url is read by itself, and no bracket opens or closes in it. -/
theorem Orderly.exists_contents (h : Orderly t) (back : Text) :
    ∃ us, (∀ u ∈ us, u.Unbracketed) ∧ textOf us = t ∧ Cut us (')' :: back) := by
  cases h with
  | bare h =>
    obtain ⟨us, hflat, htext, hcut⟩ := exists_flat (.inl rfl) h back
    exact ⟨us, fun u hu => (hflat u hu).unbracketed, htext, hcut⟩
  | @quoted lead body trail quote hquote hlead hbody htrail =>
    obtain ⟨us, hflat, htext, hcut⟩ := exists_flat (.inr hquote) hlead
      (body ++ quote :: (trail ++ ')' :: back))
    obtain ⟨us', hflat', htext', hcut'⟩ := exists_flat (.inl rfl) htrail back
    have hstring := cut_string hquote hbody (trail ++ ')' :: back)
    refine ⟨us ++ (⟨.plain, quote :: (body ++ [quote])⟩ :: us'), ?_, ?_, ?_⟩
    · intro u hu
      obtain hu | hu := List.mem_append.1 hu
      · exact (hflat u hu).unbracketed
      obtain rfl | hu := List.mem_cons.1 hu
      · exact ⟨nofun, nofun⟩
      · exact (hflat' u hu).unbracketed
    · simp [htext, htext']
    · have hrest : Cut ([⟨.plain, quote :: (body ++ [quote])⟩] ++ us') (')' :: back) :=
        Cut.append (by rwa [htext']) hcut'
      refine Cut.append ?_ hrest
      simpa [htext'] using hcut

/-! ## Rows of tokens -/

/-- How far a mode goes on after the parenthesis that ends a url. -/
def Mode.reach : Mode → Text → Nat
  | string quote _, back => stringLength quote back
  | comment, back => commentLength back
  | _, _ => 0

/-- The tokens from the one on that holds `url`. -/
def Mode.tokens (m : Mode) (before y : Text) : List Token :=
  ⟨(m.next y).1, before ++ 'u' :: 'r' :: 'l' :: ('(' :: y).take (m.next y).2⟩ ::
    Css.tokens (('(' :: y).drop (m.next y).2)

theorem Visible.around {ts us ts' : List Token} (h : Visible ts) (h' : Visible ts') :
    Visible (ts ++ (us ++ ts')) where
  first := by
    obtain ⟨t, ht, hplain⟩ := h.first
    refine ⟨t, ?_, hplain⟩
    rw [List.head?_append, Option.mem_def.1 ht]
    rfl
  last t ht := by
    obtain ⟨first, hfirst, -⟩ := h'.first
    obtain ⟨last, hlast⟩ : ∃ last, ts'.getLast? = some last := by
      cases ts' with
      | nil => cases hfirst
      | cons t' ts' => exact ⟨_, List.getLast?_eq_some_getLast (List.cons_ne_nil t' ts')⟩
    rw [List.getLast?_append, List.getLast?_append, hlast] at ht
    exact h'.last t (hlast ▸ ht)

/-- Between rows that are shown there may be anything without structure. -/
theorem Shown.around {ts us ts' : List Token} (h : Shown ts) (hus : ∀ u ∈ us, u.Flat)
    (h' : Shown ts') : Shown (ts ++ (us ++ ts')) := by
  obtain ⟨vs, hjoins, hvisible, htext⟩ := h
  obtain ⟨vs', hjoins', hvisible', htext'⟩ := h'
  refine ⟨vs ++ (us ++ vs'), hjoins.append ((Joins.flats hus).append hjoins'),
    hvisible.around hvisible', ?_⟩
  simp only [List.map_append, htext, htext']

/-- The tokens of a url within parentheses, from its first character on. -/
theorem Orderly.tokens_eq {inner : Text} (h : Orderly inner) (back : Text) :
    ∃ us, (∀ u ∈ us, u.Unbracketed) ∧ tokens (inner ++ ')' :: back) =
      us ++ [⟨.closing .round, [')']⟩] ++ tokens back := by
  obtain ⟨us, hus, htext, hcut⟩ := h.exists_contents back
  have hclose : tokens (')' :: back) = [⟨.closing .round, [')']⟩] ++ tokens back := cut_close back
  refine ⟨us, hus, ?_⟩
  rw [← htext, hcut, hclose, List.append_assoc]

theorem drop_close (inner back : Text) (n : Nat) :
    (inner ++ ')' :: back).drop (inner.length + (n + 1)) = back.drop n := by
  rw [List.drop_length_add_append]
  rfl

/-- A url within a single token. -/
theorem Mode.tokens_of_next {m : Mode} {role : Role} {inner back : Text} {n : Nat} (before : Text)
    (h : m.next (inner ++ ')' :: back) = (role, inner.length + (n + 1) + 1)) :
    ∃ text, m.tokens before (inner ++ ')' :: back) =
      [⟨role, text⟩] ++ Css.tokens (back.drop n) := by
  refine ⟨before ++ 'u' :: 'r' :: 'l' :: ('(' :: (inner ++ ')' :: back)).take
    (inner.length + (n + 1) + 1), ?_⟩
  rw [Mode.tokens, h, List.drop_succ_cons, drop_close]
  rfl

/-- A url as a function with its argument. -/
theorem Mode.tokens_of_call {m : Mode} {inner back : Text} (hinner : Orderly inner) (before : Text)
    (h : m.next (inner ++ ')' :: back) = (.opening .round, 1)) :
    ∃ ts, Shown ts ∧ m.tokens before (inner ++ ')' :: back) = ts ++ Css.tokens back := by
  obtain ⟨us, hus, hinside⟩ := hinner.tokens_eq back
  refine ⟨⟨.opening .round, before ++ ['u', 'r', 'l', '(']⟩ :: (us ++ [⟨.closing .round, [')']⟩]),
    .block rfl hus rfl, ?_⟩
  rw [Mode.tokens, h, List.drop_succ_cons, List.drop_zero, hinside]
  rfl

theorem stringLength_close_paren {quote : Char} (hquote : quote = '"' ∨ quote = '\'')
    (back : Text) :
    stringLength quote (')' :: back) = stringLength quote back + 1 := by
  obtain rfl | rfl := hquote <;> simp [stringLength, isNewline]

/-- A string that begins within a url and goes on behind it. -/
theorem tokens_string_behind {quote : Char} (hquote : quote = '"' ∨ quote = '\'') (h : Quiet t)
    (back : Text) : ∃ text, tokens (quote :: (t ++ ')' :: back)) =
      [⟨.plain, text⟩] ++ tokens (back.drop (stringLength quote back)) := by
  have hnoisy : isNoisy quote = true := by obtain rfl | rfl := hquote <;> rfl
  have hlength : stringLength quote (t ++ ')' :: back) =
      t.length + (stringLength quote back + 1) := by
    rw [stringLength_quiet h hnoisy, stringLength_close_paren hquote]
  refine ⟨quote :: (t ++ ')' :: back).take (t.length + (stringLength quote back + 1)), ?_⟩
  rw [tokens_cons, front_quote hquote, hlength, drop_close]
  rfl

/-- A url between two strings: the one ends and the other begins within it. -/
theorem Mode.exists_shown_between {lead body trail : Text} (hlead : Quiet lead) (hbody : Quiet body)
    (htrail : Quiet trail) {quote : Char} (hquote : quote = '"' ∨ quote = '\'')
    (before back : Text) : ∃ ts, Shown ts ∧ (Mode.string quote hquote).tokens before
        (lead ++ quote :: (body ++ quote :: trail) ++ ')' :: back) =
      ts ++ Css.tokens (back.drop (stringLength quote back)) := by
  have hnoisy : isNoisy quote = true := by obtain rfl | rfl := hquote <;> rfl
  have hsplit : lead ++ quote :: (body ++ quote :: trail) ++ ')' :: back =
      lead ++ quote :: (body ++ quote :: (trail ++ ')' :: back)) := by simp
  have hfirst : stringLength quote (lead ++ quote :: (body ++ quote :: (trail ++ ')' :: back))) =
      lead.length + 1 := by
    rw [stringLength_quiet hlead hnoisy, stringLength, if_pos (beq_self_eq_true _)]
  obtain ⟨us, hus, htext, hcut⟩ := exists_flat (.inr hquote) hbody (trail ++ ')' :: back)
  obtain ⟨text, hlast⟩ := tokens_string_behind hquote htrail back
  have hbehind : Css.tokens (body ++ quote :: (trail ++ ')' :: back)) =
      us ++ [⟨.plain, text⟩] ++ Css.tokens (back.drop (stringLength quote back)) := by
    rw [← htext, hcut, hlast, List.append_assoc]
  refine ⟨[⟨.plain, before ++ 'u' :: 'r' :: 'l' :: '(' :: (lead ++ [quote])⟩] ++
    (us ++ [⟨.plain, text⟩]), (Shown.plain rfl).around hus (.plain rfl), ?_⟩
  rw [Mode.tokens, next, hsplit, hfirst, List.take_succ_cons, List.drop_succ_cons,
    List.take_length_add_append, List.drop_length_add_append]
  show _ :: Css.tokens (body ++ quote :: (trail ++ ')' :: back)) = _
  rw [hbehind]
  rfl

/-- A url within a string: part of it, or between it and another one. -/
theorem Mode.exists_shown_string {inner : Text} (h : Orderly inner) {quote : Char}
    (hquote : quote = '"' ∨ quote = '\'') (before back : Text) : ∃ ts, Shown ts ∧
      (Mode.string quote hquote).tokens before (inner ++ ')' :: back) =
        ts ++ Css.tokens (back.drop (stringLength quote back)) := by
  have hnoisy : isNoisy quote = true := by obtain rfl | rfl := hquote <;> rfl
  by_cases hmem : quote ∈ inner
  · cases h with
    | bare h => exact absurd hmem (h.not_mem hnoisy)
    | @quoted lead body trail quote' hquote' hlead hbody htrail =>
      obtain rfl : quote = quote' := by
        simp only [List.mem_append, List.mem_cons, hlead.not_mem hnoisy, hbody.not_mem hnoisy,
          htrail.not_mem hnoisy, false_or, or_false, or_self] at hmem
        exact hmem
      exact exists_shown_between hlead hbody htrail hquote before back
  · have hplain : ∀ c ∈ inner, c ≠ quote ∧ isNewline c = false ∧ c ≠ '\\' := by
      intro c hc
      refine ⟨fun heq => hmem (heq ▸ hc), ?_, h.ne hc rfl (by decide) (by decide)⟩
      obtain hquiet | rfl | rfl := h.mem hc
      · exact (Bool.or_eq_false_iff.1 hquiet).1
      · rfl
      · rfl
    have hnext : (Mode.string quote hquote).next (inner ++ ')' :: back) =
        (.plain, inner.length + (stringLength quote back + 1) + 1) := by
      rw [next, stringLength_append hplain, stringLength_close_paren hquote]
    obtain ⟨text, htext⟩ := tokens_of_next before hnext
    exact ⟨_, .plain rfl, htext⟩

theorem Mode.exists_shown (m : Mode) (hm : m ≠ .comment) {inner : Text} (h : Orderly inner)
    (before back : Text) : ∃ ts, Shown ts ∧ m.tokens before (inner ++ ')' :: back) =
      ts ++ Css.tokens (back.drop (m.reach back)) := by
  cases m with
  | word =>
    have hparen : Css.tokens ('(' :: (inner ++ ')' :: back)) =
        ⟨.opening .round, ['(']⟩ :: Css.tokens (inner ++ ')' :: back) := tokens_cons _ _
    obtain ⟨us, hus, hinside⟩ := h.tokens_eq back
    refine ⟨[⟨.plain, before ++ ['u', 'r', 'l']⟩] ++ ([] ++
      (⟨.opening .round, ['(']⟩ :: (us ++ [⟨.closing .round, [')']⟩]))),
      (Shown.plain rfl).around (by simp) (.block rfl hus rfl), ?_⟩
    show _ :: Css.tokens ('(' :: (inner ++ ')' :: back)) = _
    rw [hparen, hinside]
    rfl
  | call => exact tokens_of_call h before rfl
  | url =>
    have hlength := urlLength?_close h.inner back
    by_cases hquote : startsQuote inner = true
    · rw [if_pos hquote] at hlength
      exact tokens_of_call h before (by rw [next, hlength])
    · rw [if_neg hquote] at hlength
      have hnext : url.next (inner ++ ')' :: back) = (.plain, inner.length + (0 + 1) + 1) := by
        rw [next, hlength]
      obtain ⟨text, htext⟩ := tokens_of_next before hnext
      exact ⟨_, .plain rfl, htext⟩
  | string quote hquote => exact exists_shown_string h hquote before back
  | comment => exact absurd rfl hm
  | broken =>
    have hnext : broken.next (inner ++ ')' :: back) = (.plain, inner.length + (0 + 1) + 1) := by
      rw [next, brokenUrlLength_close h.inner back]
    obtain ⟨text, htext⟩ := tokens_of_next before hnext
    exact ⟨_, .plain rfl, htext⟩

theorem Mode.role_next (m : Mode) (y : Text) : (m.next y).1 = .plain ∨ (m.next y).1 = .blank ∨
    (m.next y).1 = .opening .round := by
  cases m with
  | url =>
    rw [next]
    cases urlLength? y with
    | none => exact .inr (.inr rfl)
    | some more => exact .inl rfl
  | call => exact .inr (.inr rfl)
  | comment => exact .inr (.inl rfl)
  | _ => exact .inl rfl

theorem Mode.textOf_tokens (m : Mode) (before y : Text) :
    textOf (m.tokens before y) = before ++ 'u' :: 'r' :: 'l' :: '(' :: y := by
  rw [Mode.tokens, textOf_cons, Css.textOf_tokens]
  simp

section

variable {m : Mode} {inner before back : Text} {ts : List Token}

theorem Mode.textOf_row (h : m.tokens before (inner ++ ')' :: back) =
    ts ++ Css.tokens (back.drop (m.reach back))) :
    textOf ts = before ++ urlAround inner ++ back.take (m.reach back) := by
  have htext := congrArg textOf h
  rw [m.textOf_tokens, textOf_append, Css.textOf_tokens] at htext
  refine List.append_cancel_right (htext.symm.trans ?_)
  rw [List.append_assoc _ _ (back.drop _), List.take_append_drop]
  simp [urlAround]

theorem Mode.head?_row (h : m.tokens before (inner ++ ')' :: back) =
    ts ++ Css.tokens (back.drop (m.reach back))) : ∃ t ∈ ts.head?, byteSize before < t.byteSize ∧
      (t.role = .plain ∨ t.role = .blank ∨ t.role = .opening .round) := by
  cases ts with
  | nil =>
    have htext := textOf_row h
    simp [urlAround] at htext
  | cons t ts =>
    refine ⟨t, rfl, ?_⟩
    rw [← (List.cons.inj h).1]
    refine ⟨?_, m.role_next _⟩
    have hsize := Char.utf8Size_pos 'u'
    rw [Token.byteSize, byteSize_append, byteSize_cons]
    omega

theorem Mode.tokens_comment (h : Orderly inner) (before back : Text) : ∃ text,
    comment.tokens before (inner ++ ')' :: back) =
      [⟨.blank, text⟩] ++ Css.tokens (back.drop (commentLength back)) := by
  have hlength : commentLength (inner ++ ')' :: back) =
      inner.length + (commentLength back + 1) := by
    rw [commentLength_append (fun c hc => h.ne hc rfl (by decide) (by decide)), commentLength_cons,
      if_neg (by simp)]
  exact tokens_of_next before (by rw [next, hlength])

/-- In each mode an orderly url is read as a row of tokens, for which that of another one may stand
in. -/
theorem Mode.exists_exchange (m : Mode) (h : Orderly inner) {inner' : Text} (h' : Orderly inner')
    (before back : Text) : ∃ ts ts', Exchange before (urlAround inner) (urlAround inner')
        (back.take (m.reach back)) ts ts' ∧
      m.tokens before (inner ++ ')' :: back) = ts ++ Css.tokens (back.drop (m.reach back)) ∧
      m.tokens before (inner' ++ ')' :: back) = ts' ++ Css.tokens (back.drop (m.reach back)) := by
  by_cases hcomment : m = .comment
  · subst hcomment
    obtain ⟨text, hrow⟩ := tokens_comment h before back
    obtain ⟨text', hrow'⟩ := tokens_comment h' before back
    refine ⟨_, _, ?_, hrow, hrow'⟩
    obtain ⟨t, ht, hsize, -⟩ := head?_row (m := .comment) hrow
    cases ht
    have hold := textOf_row (m := .comment) hrow
    have hnew := textOf_row (m := .comment) hrow'
    exact .of_comments rfl rfl (by simpa using hold) (by simpa using hnew) hsize
  · obtain ⟨ts, hshown, hrow⟩ := m.exists_shown hcomment h before back
    obtain ⟨ts', hshown', hrow'⟩ := m.exists_shown hcomment h' before back
    refine ⟨ts, ts', ?_, hrow, hrow'⟩
    obtain ⟨t, ht, hsize, hrole⟩ := head?_row hrow
    obtain ⟨t', ht', -⟩ := head?_row hrow'
    have honly : ∀ u ∈ ts.head?, u = t := fun u hu => Option.some.inj (hu.symm.trans ht)
    refine .of_shown (textOf_row hrow) (textOf_row hrow') ?_ ?_ hshown hshown'
      (fun u hu => honly u hu ▸ hsize) (fun u hu => honly u hu ▸ hrole)
    · rintro rfl
      cases ht
    · rintro rfl
      cases ht'

/-- **Orderly urls may give way to each other**, whatever they stand in. -/
theorem Orderly.exchanges (h : Orderly inner) {inner' : Text} (h' : Orderly inner')
    (front back : Text) : Exchanges front (urlAround inner) (urlAround inner') back := by
  obtain ⟨pre, before, m, hfront, hm⟩ := exists_mode front
  have htokens (inner : Text) : tokens (front ++ urlAround inner ++ back) =
      pre ++ m.tokens before (inner ++ ')' :: back) := by
    rw [Mode.tokens, ← hm]
    simp [urlAround]
  obtain ⟨ts, ts', hexchange, hrow, hrow'⟩ := m.exists_exchange h h' before back
  exact ⟨pre, ts, ts', _, before, _, by rw [htokens, hrow], by rw [htokens, hrow'], hfront,
    hexchange⟩

end

end StyleAssets.Css
