import Mathlib.Data.List.TakeWhile
import StyleAssets.Proofs.Css.Token

/-!
# How far lexical forms look ahead

Lexical forms look ahead by a few characters only, and by none of `u`, `)`, `;`, `}` and the quotes:
a form that ends before such a character does not depend on what follows that character.

* `IsStop` — these characters.
* `Settled` — a length does not depend on what follows, as far as it ends before.
* `Fork` — a form ends before such a character or goes on past it; `nameLength_forks` and the others
  say so of each form, by its own recursion.
-/

namespace StyleAssets.Css

/-- A character that no lexical form looks behind if it ends before. -/
def IsStop (d : Char) : Prop := d = 'u' ∨ d = ')' ∨ d = '"' ∨ d = '\'' ∨ d = ';' ∨ d = '}'

variable {d : Char}

theorem drop_append_cons {n : Nat} {w : Text} (h : n ≤ w.length) (x : Text) :
    (w ++ d :: x).drop n = w.drop n ++ d :: x := List.drop_append_of_le_length h

/-! ## What ends at the character -/

theorem isPrefixOf_stop {part : Text} (h : d ∉ part) (w x : Text) :
    part.isPrefixOf (w ++ d :: x) = part.isPrefixOf w := by
  induction part generalizing w with
  | nil => simp
  | cons c part ih =>
    cases w with
    | nil =>
      have hc : c ≠ d := fun hc => h (hc ▸ List.mem_cons_self)
      rw [List.nil_append, List.isPrefixOf_cons_cons, beq_eq_false_iff_ne.2 hc, Bool.false_and]
      rfl
    | cons b w =>
      have hpart : d ∉ part := fun hmem => h (List.mem_cons_of_mem _ hmem)
      simp only [List.cons_append, List.isPrefixOf_cons_cons, ih hpart w]

theorem takeWhile_stop {p : Char → Bool} (h : p d = false) (w x : Text) :
    (w ++ d :: x).takeWhile p = w.takeWhile p := by
  rw [List.takeWhile_append]
  split
  · rename_i hall
    rw [List.takeWhile_cons_of_neg (by simp [h]), List.append_nil]
    exact ((List.takeWhile_sublist p).eq_of_length hall).symm
  · rfl

theorem startsLine_stop (hd : IsStop d) (w x : Text) :
    startsLine (w ++ d :: x) = startsLine w := by
  cases w with
  | nil => obtain rfl | rfl | rfl | rfl | rfl | rfl := hd <;> rfl
  | cons c w => rfl

theorem spaceLength_stop (hd : IsStop d) (w x : Text) :
    spaceLength (w ++ d :: x) = spaceLength w := by
  match w with
  | [] => obtain rfl | rfl | rfl | rfl | rfl | rfl := hd <;> rfl
  | [c] =>
    by_cases hc : c = '\r'
    · subst hc
      obtain rfl | rfl | rfl | rfl | rfl | rfl := hd <;> rfl
    · simp [spaceLength, hc]
  | c :: c' :: w =>
    by_cases hc : c = '\r'
    · subst hc
      by_cases hc' : c' = '\n'
      · subst hc'
        rfl
      · simp [spaceLength, hc']
    · simp [spaceLength, hc]

theorem escapeDigits_stop (hd : IsStop d) (w x : Text) :
    escapeDigits (w ++ d :: x) = escapeDigits w := by
  have hdigit : isHexDigit d = false := by obtain rfl | rfl | rfl | rfl | rfl | rfl := hd <;> rfl
  rw [escapeDigits, escapeDigits, List.take_append]
  cases hn : 6 - w.length with
  | zero => rw [List.take_zero, List.append_nil]
  | succ n => rw [List.take_succ_cons, takeWhile_stop hdigit]

theorem escapeDigits_length_le (t : Text) : (escapeDigits t).length ≤ t.length := by
  unfold escapeDigits
  refine Nat.le_trans (List.takeWhile_sublist _).length_le ?_
  rw [List.length_take]
  exact Nat.min_le_right _ _

/-- An escape ends before the character, unless that is what is escaped. -/
theorem escapeLength_stop (hd : IsStop d) {w : Text} (hw : w ≠ []) (x : Text) :
    escapeLength (w ++ d :: x) = escapeLength w := by
  have hle := escapeDigits_length_le w
  unfold escapeLength
  rw [escapeDigits_stop hd]
  split
  · have := List.length_pos_iff.2 hw
    simp only [List.length_append, List.length_cons]
    omega
  · rw [drop_append_cons hle, spaceLength_stop hd]

theorem escapeLength_self (hd : IsStop d) (x : Text) : escapeLength (d :: x) = 1 := by
  have hdigits : escapeDigits (d :: x) = [] := escapeDigits_stop hd [] x
  unfold escapeLength
  rw [hdigits]
  simp

theorem spaceLength_le (t : Text) : spaceLength t ≤ t.length := by
  unfold spaceLength
  split
  · simp
  · simp only [List.length_cons]
    split
    · omega
    · omega
  · exact Nat.le_refl _

theorem escapeLength_le (t : Text) : escapeLength t ≤ t.length := by
  have hle := escapeDigits_length_le t
  unfold escapeLength
  split
  · omega
  · rename_i hdigits
    have := spaceLength_le (t.drop (escapeDigits t).length)
    rw [List.length_drop] at this
    omega

theorem digitsLength_stop (hd : IsStop d) (w x : Text) :
    digitsLength (w ++ d :: x) = digitsLength w := by
  have hdigit : d.isDigit = false := by obtain rfl | rfl | rfl | rfl | rfl | rfl := hd <;> rfl
  rw [digitsLength, digitsLength, takeWhile_stop hdigit]

theorem fractionLength_stop (hd : IsStop d) (w x : Text) :
    fractionLength (w ++ d :: x) = fractionLength w := by
  cases w with
  | nil => obtain rfl | rfl | rfl | rfl | rfl | rfl := hd <;> rfl
  | cons c w =>
    by_cases hc : c = '.'
    · subst hc
      simp only [List.cons_append, fractionLength, digitsLength_stop hd]
    · simp [fractionLength, hc]

theorem signLength_stop (hd : IsStop d) (w x : Text) :
    signLength (w ++ d :: x) = signLength w := by
  cases w with
  | nil => obtain rfl | rfl | rfl | rfl | rfl | rfl := hd <;> rfl
  | cons c w => rfl

theorem signLength_le (t : Text) : signLength t ≤ t.length := by
  unfold signLength
  split
  · simp only [List.length_cons]
    split
    · omega
    · omega
  · exact Nat.le_refl _

theorem exponentLength_stop (hd : IsStop d) (w x : Text) :
    exponentLength (w ++ d :: x) = exponentLength w := by
  cases w with
  | nil => obtain rfl | rfl | rfl | rfl | rfl | rfl := hd <;> rfl
  | cons c w =>
    simp only [List.cons_append, exponentLength, signLength_stop hd,
      drop_append_cons (signLength_le w), digitsLength_stop hd]

theorem startsNumber_stop (hd : IsStop d) (w x : Text) :
    startsNumber (w ++ d :: x) = startsNumber w := by
  simp only [startsNumber, signLength_stop hd, drop_append_cons (signLength_le w),
    digitsLength_stop hd, fractionLength_stop hd]

/-! ## What may go on -/

/-- What follows the character does not matter to a length that ends before it. -/
def Settled (d : Char) (f : Text → Nat) : Prop :=
  ∀ w x x', f (w ++ d :: x) ≤ w.length → f (w ++ d :: x') = f (w ++ d :: x)

/-- A lexical form that comes to a character after `w`: it ends before the character, whatever
follows that, or it goes on, and then it goes on past `url(` as far as `g` says. -/
inductive Fork (d : Char) (f g : Text → Nat) (w : Text) : Prop
  | ends (n : Nat) (hle : n ≤ w.length) (h : ∀ x, f (w ++ d :: x) = n)
  | goesOn (hlt : ∀ x, w.length < f (w ++ d :: x))
      (hurl : d = 'u' → ∀ y, f (w ++ 'u' :: 'r' :: 'l' :: '(' :: y) = w.length + g y)

section

variable {f f' g : Text → Nat} {w w' x : Text}

/-- A form that reads `n` characters and then another form. -/
theorem Fork.after (h : Fork d f g w) (n : Nat) (hlength : w'.length = w.length + n)
    (hstep : ∀ x, f' (w' ++ d :: x) = f (w ++ d :: x) + n) : Fork d f' g w' := by
  cases h with
  | ends m hle h =>
    refine .ends (m + n) ?_ fun x => ?_
    · rw [hlength]
      exact Nat.add_le_add_right hle n
    · rw [hstep, h]
  | goesOn hlt hurl =>
    refine .goesOn (fun x => ?_) fun hd y => ?_
    · rw [hstep, hlength]
      exact Nat.add_lt_add_right (hlt x) n
    · subst hd
      rw [hstep, hurl rfl, hlength, Nat.add_right_comm]

/-- A form in which a backslash takes the character with it. -/
theorem Fork.escaped {c : Char} (hstep : ∀ x, f ([c] ++ d :: x) = f x + 2)
    (hurl : ∀ y, f ('r' :: 'l' :: '(' :: y) + 2 = 1 + g y) : Fork d f g [c] := by
  refine .goesOn (fun x => ?_) fun hd y => ?_
  · rw [hstep, List.length_singleton]
    omega
  · subst hd
    rw [hstep, hurl, List.length_singleton]

/-- A form ends before the character or goes on past it, wherever it comes to it. -/
def Forks (d : Char) (f g : Text → Nat) : Prop := ∀ w, Fork d f g w

theorem Forks.settled (h : Forks d f g) : Settled d f := by
  intro w x x' hle
  cases h w with
  | ends n _ h => rw [h, h]
  | goesOn hlt _ => exact absurd hle (Nat.not_le.2 (hlt x))

end

theorem nameLength_forks (hd : IsStop d) : Forks d nameLength fun _ => 3
  | [] => by
    obtain rfl | hd := hd
    · refine .goesOn (fun x => ?_) fun _ y => ?_
      · simp [nameLength, isNameChar, isNameStart]
      · simp [nameLength, isNameChar, isNameStart]
    · refine .ends 0 (Nat.le_refl 0) fun x => ?_
      obtain rfl | rfl | rfl | rfl | rfl := hd <;> simp [nameLength, isNameChar, isNameStart]
  | c :: w => by
    by_cases hc : isNameChar c = true
    · refine (nameLength_forks hd w).after 1 rfl fun x => ?_
      rw [List.cons_append, nameLength, if_pos hc]
    by_cases hescape : (c == '\\' && !startsLine w) = true
    · have hstep (x : Text) : nameLength (c :: w ++ d :: x) =
          nameLength ((w ++ d :: x).drop (escapeLength (w ++ d :: x))) +
            (escapeLength (w ++ d :: x) + 1) := by
        rw [List.cons_append, nameLength, if_neg hc, startsLine_stop hd, if_pos hescape,
          Nat.add_assoc]
      by_cases hw : w = []
      · subst hw
        refine .escaped (fun x => ?_) fun y => ?_
        · rw [hstep, List.nil_append, escapeLength_self hd, List.drop_succ_cons, List.drop_zero]
        · simp [nameLength, isNameChar, isNameStart]
      · have hle := escapeLength_le w
        refine (nameLength_forks hd (w.drop (escapeLength w))).after (escapeLength w + 1) ?_
          fun x => ?_
        · rw [List.length_cons, List.length_drop]
          omega
        · rw [hstep, escapeLength_stop hd hw, drop_append_cons hle]
    · refine .ends 0 (Nat.zero_le _) fun x => ?_
      rw [List.cons_append, nameLength, if_neg hc, startsLine_stop hd, if_neg hescape]
termination_by w => w.length
decreasing_by all_goals simp only [List.length_drop, List.length_cons]; omega

theorem stringLength_forks (hd : IsStop d) {quote : Char} (hquote : quote = '"' ∨ quote = '\'') :
    Forks d (stringLength quote) fun y => stringLength quote y + 4
  | [] => by
    have hplain : isNewline d = false ∧ (d == '\\') = false := by
      obtain rfl | rfl | rfl | rfl | rfl | rfl := hd <;> exact ⟨rfl, rfl⟩
    refine .goesOn (fun x => ?_) fun _ y => ?_
    · rw [List.nil_append, stringLength, hplain.1, hplain.2]
      split
      · exact Nat.zero_lt_one
      · exact Nat.succ_pos _
    · obtain rfl | rfl := hquote <;> simp [stringLength, isNewline]
  | c :: w => by
    by_cases hc : (c == quote) = true
    · refine .ends 1 (Nat.succ_pos _) fun x => ?_
      rw [List.cons_append, stringLength, if_pos hc]
    by_cases hline : isNewline c = true
    · refine .ends 0 (Nat.zero_le _) fun x => ?_
      rw [List.cons_append, stringLength, if_neg hc, if_pos hline]
    by_cases hescape : (c == '\\') = true
    · have hstep (x : Text) : stringLength quote (c :: w ++ d :: x) =
          let skipped := if startsLine w then spaceLength w else escapeLength (w ++ d :: x)
          stringLength quote ((w ++ d :: x).drop skipped) +
            (min skipped (w ++ d :: x).length + 1) := by
        rw [List.cons_append, stringLength, if_neg hc, if_neg hline, if_pos hescape,
          startsLine_stop hd, spaceLength_stop hd, Nat.add_assoc]
      by_cases hw : w = []
      · subst hw
        refine .escaped (fun x => ?_) fun y => ?_
        · rw [hstep]
          simp [escapeLength_self hd, startsLine]
        · obtain rfl | rfl := hquote
          · simp [stringLength, isNewline, Nat.add_comm 1]
          · simp [stringLength, isNewline, Nat.add_comm 1]
      · obtain ⟨n, hskipped⟩ : ∃ n, (if startsLine w then spaceLength w else escapeLength w) = n :=
          ⟨_, rfl⟩
        have hn : n ≤ w.length := by
          rw [← hskipped]
          split
          · exact spaceLength_le w
          · exact escapeLength_le w
        refine (stringLength_forks hd hquote (w.drop n)).after (n + 1) ?_ fun x => ?_
        · rw [List.length_cons, List.length_drop]
          omega
        · have hmin : min n (w ++ d :: x).length = n := by
            rw [List.length_append]
            omega
          rw [hstep, escapeLength_stop hd hw, hskipped]
          simp only [drop_append_cons hn, hmin]
    · refine (stringLength_forks hd hquote w).after 1 rfl fun x => ?_
      rw [List.cons_append, stringLength, if_neg hc, if_neg hline, if_neg hescape]
termination_by w => w.length
decreasing_by all_goals simp only [List.length_drop, List.length_cons]; omega

theorem commentLength_cons (c : Char) (t : Text) : commentLength (c :: t) =
    if c = '*' ∧ t.head? = some '/' then 2 else commentLength t + 1 := by
  split
  · rename_i h
    obtain ⟨rfl, h⟩ := h
    obtain ⟨rest, rfl⟩ := List.head?_eq_some_iff.1 h
    rfl
  · rename_i h
    rw [commentLength]
    intro rest hc hrest
    exact h ⟨hc, by rw [hrest]; rfl⟩

theorem commentLength_forks (hd : IsStop d) : Forks d commentLength fun y => commentLength y + 4
  | [] => by
    have hplain (x : Text) : ¬(d = '*' ∧ x.head? = some '/') := by
      obtain rfl | rfl | rfl | rfl | rfl | rfl := hd <;> simp
    refine .goesOn (fun x => ?_) fun _ y => ?_
    · rw [List.nil_append, commentLength_cons, if_neg (hplain x)]
      exact Nat.succ_pos _
    · simp [commentLength_cons]
  | c :: w => by
    have hhead (x : Text) : (w ++ d :: x).head? = some '/' ↔ w.head? = some '/' := by
      cases w with
      | nil => obtain rfl | rfl | rfl | rfl | rfl | rfl := hd <;> simp
      | cons c' w => rfl
    by_cases hends : c = '*' ∧ w.head? = some '/'
    · refine .ends 2 ?_ fun x => ?_
      · obtain ⟨rest, rfl⟩ := List.head?_eq_some_iff.1 hends.2
        simp
      · rw [List.cons_append, commentLength_cons, if_pos (by rwa [hhead])]
    · refine (commentLength_forks hd w).after 1 rfl fun x => ?_
      rw [List.cons_append, commentLength_cons, if_neg (by rwa [hhead])]

theorem brokenUrlLength_cons (c : Char) (t : Text) : brokenUrlLength (c :: t) =
    if c = ')' then 1
    else if c = '\\' ∧ (t.head? = some ')' ∨ t.head? = some '\\') then brokenUrlLength t.tail + 2
    else brokenUrlLength t + 1 := by
  split
  · rename_i h
    rw [h]
    rfl
  · rename_i hclose
    split
    · rename_i h
      obtain ⟨rfl, h | h⟩ := h
      · obtain ⟨rest, rfl⟩ := List.head?_eq_some_iff.1 h
        rfl
      · obtain ⟨rest, rfl⟩ := List.head?_eq_some_iff.1 h
        rfl
    · rename_i h
      rw [brokenUrlLength]
      · exact hclose
      · intro rest hc hrest
        exact h ⟨hc, by rw [hrest]; exact .inl rfl⟩
      · intro rest hc hrest
        exact h ⟨hc, by rw [hrest]; exact .inr rfl⟩

theorem brokenUrlLength_pos (c : Char) (t : Text) : 1 ≤ brokenUrlLength (c :: t) := by
  rw [brokenUrlLength_cons]
  split
  · exact Nat.le_refl _
  · split
    · omega
    · omega

theorem brokenUrlLength_forks (hd : IsStop d) :
    Forks d brokenUrlLength fun y => brokenUrlLength y + 4
  | [] => by
    refine .goesOn (fun x => brokenUrlLength_pos d x) fun _ y => ?_
    simp [brokenUrlLength_cons]
  | [c] => by
    by_cases hc : c = ')'
    · refine .ends 1 (Nat.le_refl 1) fun x => ?_
      rw [List.singleton_append, brokenUrlLength_cons, if_pos hc]
    · refine .goesOn (fun x => ?_) fun _ y => ?_
      · have := brokenUrlLength_pos d x
        rw [List.singleton_append, brokenUrlLength_cons, if_neg hc, List.length_singleton]
        split
        · omega
        · omega
      · rw [List.singleton_append, brokenUrlLength_cons, if_neg hc]
        simp [brokenUrlLength_cons]
        omega
  | c :: c' :: w => by
    have hcons (x : Text) : brokenUrlLength (c :: c' :: w ++ d :: x) =
        brokenUrlLength (c :: (c' :: w ++ d :: x)) := rfl
    by_cases hc : c = ')'
    · refine .ends 1 (Nat.succ_pos _) fun x => ?_
      rw [hcons, brokenUrlLength_cons, if_pos hc]
    by_cases hescape : c = '\\' ∧ (c' = ')' ∨ c' = '\\')
    · refine (brokenUrlLength_forks hd w).after 2 rfl fun x => ?_
      rw [hcons, brokenUrlLength_cons, if_neg hc, if_pos (by simpa using hescape)]
      rfl
    · refine (brokenUrlLength_forks hd (c' :: w)).after 1 rfl fun x => ?_
      rw [hcons, brokenUrlLength_cons, if_neg hc, if_neg (by simpa using hescape)]
termination_by w => w.length

theorem isSpace_stop (hd : IsStop d) : isSpace d = false := by
  obtain rfl | rfl | rfl | rfl | rfl | rfl := hd <;> rfl

theorem length_takeWhile_le (p : Char → Bool) (t : Text) : (t.takeWhile p).length ≤ t.length :=
  (List.takeWhile_sublist p).length_le

theorem urlEndLength_of_cons {t rest : Text} {c : Char}
    (h : t.drop (t.takeWhile isSpace).length = c :: rest) : urlEndLength t =
      (t.takeWhile isSpace).length + if c = ')' then 1 else brokenUrlLength rest + 1 := by
  unfold urlEndLength
  simp only [h]
  split
  · cases ‹_›
  · rename_i hc
    rw [if_pos (List.cons.inj hc).1]
  · rename_i hclose hc
    obtain ⟨rfl, rfl⟩ := List.cons.inj hc
    rw [if_neg hclose, Nat.add_assoc, Nat.add_comm 1]

theorem urlEndLength_forks (hd : IsStop d) :
    Forks d urlEndLength fun y => brokenUrlLength y + 4 := by
  intro w
  have hle := length_takeWhile_le isSpace w
  have hlength := List.length_drop (i := (w.takeWhile isSpace).length) (l := w)
  have hnext (x : Text) : (w ++ d :: x).drop ((w ++ d :: x).takeWhile isSpace).length =
      w.drop (w.takeWhile isSpace).length ++ d :: x := by
    rw [takeWhile_stop (isSpace_stop hd), drop_append_cons hle]
  have hblanks (x : Text) : ((w ++ d :: x).takeWhile isSpace).length =
      (w.takeWhile isSpace).length := by
    rw [takeWhile_stop (isSpace_stop hd)]
  cases hrest : w.drop (w.takeWhile isSpace).length with
  | nil =>
    rw [hrest, List.length_nil] at hlength
    refine .goesOn (fun x => ?_) fun hu y => ?_
    · rw [urlEndLength_of_cons (by rw [hnext, hrest, List.nil_append]), hblanks]
      split
      · omega
      · omega
    · subst hu
      rw [urlEndLength_of_cons (by rw [hnext, hrest, List.nil_append]), hblanks]
      simp [brokenUrlLength_cons]
      omega
  | cons c rest =>
    rw [hrest, List.length_cons] at hlength
    by_cases hc : c = ')'
    · refine .ends ((w.takeWhile isSpace).length + 1) (by omega) fun x => ?_
      rw [urlEndLength_of_cons (by rw [hnext, hrest, List.cons_append]), hblanks, if_pos hc]
    · refine (brokenUrlLength_forks hd rest).after ((w.takeWhile isSpace).length + 1) (by omega)
        fun x => ?_
      rw [urlEndLength_of_cons (by rw [hnext, hrest, List.cons_append]), hblanks, if_neg hc]
      omega

theorem urlBodyLength_pos (c : Char) (t : Text) : 1 ≤ urlBodyLength (c :: t) := by
  rw [urlBodyLength]
  split
  · exact Nat.le_refl _
  split
  · omega
  split
  · omega
  split
  · split
    · omega
    · omega
  · omega

theorem urlBodyLength_forks (hd : IsStop d) : Forks d urlBodyLength fun y => brokenUrlLength y + 4
  | [] => by
    refine .goesOn (fun x => urlBodyLength_pos d x) fun _ y => ?_
    simp [urlBodyLength, isSpace, isNewline, isUnprintable]
  | c :: w => by
    by_cases hc : (c == ')') = true
    · refine .ends 1 (Nat.succ_pos _) fun x => ?_
      rw [List.cons_append, urlBodyLength, if_pos hc]
    by_cases hspace : isSpace c = true
    · refine (urlEndLength_forks hd w).after 1 rfl fun x => ?_
      rw [List.cons_append, urlBodyLength, if_neg hc, if_pos hspace]
    by_cases hbroken : (isUnprintable c || c == '"' || c == '\'' || c == '(') = true
    · refine (brokenUrlLength_forks hd w).after 1 rfl fun x => ?_
      rw [List.cons_append, urlBodyLength, if_neg hc, if_neg hspace, if_pos hbroken]
    by_cases hescape : (c == '\\') = true
    · have hstep (x : Text) : urlBodyLength (c :: w ++ d :: x) =
          if startsLine w then brokenUrlLength (w ++ d :: x) + 1
          else urlBodyLength ((w ++ d :: x).drop (escapeLength (w ++ d :: x))) +
            (escapeLength (w ++ d :: x) + 1) := by
        rw [List.cons_append, urlBodyLength, if_neg hc, if_neg hspace, if_neg hbroken,
          if_pos hescape, startsLine_stop hd, Nat.add_assoc]
      by_cases hline : startsLine w = true
      · refine (brokenUrlLength_forks hd w).after 1 rfl fun x => ?_
        rw [hstep, if_pos hline]
      by_cases hw : w = []
      · subst hw
        refine .escaped (fun x => ?_) fun y => ?_
        · rw [hstep, if_neg hline, List.nil_append, escapeLength_self hd, List.drop_succ_cons,
            List.drop_zero]
        · simp [urlBodyLength, isSpace, isNewline, isUnprintable, Nat.add_comm 1]
      · have hle := escapeLength_le w
        refine (urlBodyLength_forks hd (w.drop (escapeLength w))).after (escapeLength w + 1) ?_
          fun x => ?_
        · rw [List.length_cons, List.length_drop]
          omega
        · rw [hstep, if_neg hline, escapeLength_stop hd hw, drop_append_cons hle]
    · refine (urlBodyLength_forks hd w).after 1 rfl fun x => ?_
      rw [List.cons_append, urlBodyLength, if_neg hc, if_neg hspace, if_neg hbroken,
        if_neg hescape]
termination_by w => w.length
decreasing_by all_goals simp only [List.length_drop, List.length_cons]; omega

/-- An unquoted url, with the blanks before it. -/
def unquotedLength (t : Text) : Nat :=
  (t.takeWhile isSpace).length + urlBodyLength (t.drop (t.takeWhile isSpace).length)

theorem unquotedLength_forks (hd : IsStop d) :
    Forks d unquotedLength fun y => brokenUrlLength y + 4 := by
  intro w
  have hle := length_takeWhile_le isSpace w
  refine (urlBodyLength_forks hd (w.drop (w.takeWhile isSpace).length)).after
    (w.takeWhile isSpace).length ?_ fun x => ?_
  · rw [List.length_drop, Nat.sub_add_cancel hle]
  · rw [unquotedLength, takeWhile_stop (isSpace_stop hd), drop_append_cons hle, Nat.add_comm]

/-- The character decides at the latest whether a url is quoted. -/
theorem urlLength?_cases (hd : IsStop d) (w : Text) :
    (∀ x, urlLength? (w ++ d :: x) = none) ∨
      ∀ x, urlLength? (w ++ d :: x) = some (unquotedLength (w ++ d :: x)) := by
  unfold urlLength? unquotedLength
  simp only [takeWhile_stop (isSpace_stop hd), drop_append_cons (length_takeWhile_le isSpace w)]
  cases w.drop (w.takeWhile isSpace).length with
  | nil =>
    by_cases hquote : (d == '"' || d == '\'') = true
    · exact .inl fun x => if_pos hquote
    · exact .inr fun x => if_neg hquote
  | cons c rest =>
    by_cases hquote : (c == '"' || c == '\'') = true
    · exact .inl fun x => if_pos hquote
    · exact .inr fun x => if_neg hquote

/-- The rest of an unquoted url, or that a quote comes next. -/
theorem urlLength?_settled (hd : IsStop d) {w x : Text} (x' : Text)
    (h : ∀ n ∈ urlLength? (w ++ d :: x), n ≤ w.length) :
    urlLength? (w ++ d :: x') = urlLength? (w ++ d :: x) := by
  obtain hquoted | hlength := urlLength?_cases hd w
  · rw [hquoted, hquoted]
  · rw [hlength, hlength, (unquotedLength_forks hd).settled w x x' (h _ (hlength x))]

end StyleAssets.Css
