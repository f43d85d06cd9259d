import StyleAssets.Proofs.Css.Twin
import StyleAssets.Proofs.Css.UrlForm

/-!
# Rows of tokens that stand in for each other

Which rows of tokens join a segment, and which of them may stand in for each other in a value.

* `Joins.flats`, `Joins.block` — tokens without structure join a segment as they are, and a block
  joins it as plain tokens; `Joins.append` puts rows together.
* `Shown` — a row with something to see at both ends.
* `Exchange.of_shown` — **main result**: such rows may stand in for each other;
  `Exchange.of_comments` for two comments.
-/

namespace StyleAssets.Css

open Text Scanner

variable {ts us ts' us' content : List Token} {t opening closing : Token} {b : Bracket}

/-- No bracket opens or closes with the token. -/
def Token.Unbracketed (t : Token) : Prop := (∀ b, t.role ≠ .opening b) ∧ ∀ b, t.role ≠ .closing b

/-- The token neither ends a segment nor opens or closes a bracket. -/
def Token.Flat (t : Token) : Prop := t.role = .plain ∨ t.role = .colon ∨ t.role = .blank

theorem Token.Flat.unbracketed (h : t.Flat) : t.Unbracketed := by
  obtain h | h | h := h
  · exact ⟨by simp [h], by simp [h]⟩
  · exact ⟨by simp [h], by simp [h]⟩
  · exact ⟨by simp [h], by simp [h]⟩

/-! ## What joins a segment -/

theorem passes_unbracketed {s : Scanner} (hs : s.passing ≠ [])
    (h : ∀ t ∈ ts, t.Unbracketed) : s.Passes ts s.passing := by
  obtain ⟨innermost, outer, hpassing⟩ := List.exists_cons_of_ne_nil hs
  induction ts generalizing s with
  | nil => exact Passes.nil s
  | cons t ts ih =>
    obtain ⟨ht, hts⟩ := List.forall_mem_cons.1 h
    have hfirst := passes_one hpassing t
    rw [passed_other ht.1 (ht.2 innermost), ← hpassing] at hfirst
    exact hfirst.append (ih hs hts hpassing)

theorem Joins.nil : Joins [] [] where
  walk _ _ _ := rfl
  pass s _ := Passes.nil s

theorem Joins.append (h : Joins ts us) (h' : Joins ts' us') : Joins (ts ++ ts') (us ++ us') where
  walk s hs hne := by
    have hmore : us.reverse ++ s.segment ≠ [] := by simp [hne]
    rw [List.foldl_append, h.walk s hs hne,
      h'.walk { s with
        offset := s.offset + byteSize (textOf ts), segment := us.reverse ++ s.segment } hs hmore]
    simp [Nat.add_assoc]
  pass s hs := (h.pass s hs).append (h'.pass _ hs)

theorem Joins.flat (ht : t.Flat) : Joins [t] [t] where
  walk s hs hne := by
    have htake : s.take t = s.push t := by
      obtain h | h | h := ht
      · rw [take, h]
      · rw [take, h]
      · rw [take, h]
        simp [hne]
    rw [List.foldl_cons, List.foldl_nil, step_of_walking hs, htake]
    simp [push, hne, Token.byteSize]
  pass s hs := passes_unbracketed hs (by simpa using ht.unbracketed)

theorem Joins.flats (h : ∀ t ∈ ts, t.Flat) : Joins ts ts := by
  induction ts with
  | nil => exact .nil
  | cons t ts ih =>
    obtain ⟨ht, hts⟩ := List.forall_mem_cons.1 h
    exact (Joins.flat ht).append (ih hts)

/-- A block joins a segment as plain tokens. -/
theorem Joins.block (hopening : opening.role = .opening .round)
    (hcontent : ∀ t ∈ content, t.Unbracketed) (hclosing : closing.role = .closing .round) :
    Joins (opening :: (content ++ [closing]))
      ((opening :: (content ++ [closing])).map Token.nested) where
  walk s hs hne := by
    have hstep : s.step opening = { s with
        offset := s.offset + opening.byteSize, passing := [.round],
        segment := opening.nested :: s.segment } := by
      rw [step_of_walking hs, take, hopening]
      simp [push, hne, Token.nested]
    have hpasses := passes_unbracketed (s := s.step opening) (by rw [hstep]; simp) hcontent
    have hall : (s.step opening).Passes (content ++ [closing]) [] := by
      rw [hstep] at hpasses ⊢
      have hends := hpasses.snoc closing
      rwa [passed_closing hclosing] at hends
    rw [List.foldl_cons, hall, hstep]
    simp [skim, hs, Token.byteSize, Nat.add_assoc]
  pass s hs := by
    obtain ⟨innermost, outer, hpassing⟩ := List.exists_cons_of_ne_nil hs
    have hfirst := passes_one hpassing opening
    rw [passed_opening hopening] at hfirst
    have hmiddle := passes_unbracketed
      (s := { s.skim [opening] with passing := .round :: innermost :: outer }) (by simp) hcontent
    have hends := (hfirst.append hmiddle).snoc closing
    rw [passed_closing hclosing] at hends
    rw [hpassing]
    exact hends

/-! ## Rows of tokens in a value -/

/-- Some tokens join a segment with a plain one first and one last that is not blank. -/
def Shown (ts : List Token) : Prop :=
  ∃ us, Joins ts us ∧ Visible us ∧ us.map Token.text = ts.map Token.text

theorem textOf_of_map (h : us.map Token.text = ts.map Token.text) : textOf us = textOf ts := by
  rw [textOf, textOf, List.flatMap_def, List.flatMap_def, h]

theorem visible_nested (h : ts ≠ []) : Visible (ts.map Token.nested) where
  first := by
    obtain ⟨t, more, rfl⟩ := List.exists_cons_of_ne_nil h
    exact ⟨t.nested, rfl, rfl⟩
  last t ht := by
    obtain ⟨t, -, rfl⟩ := List.mem_map.1 (List.mem_of_mem_getLast? ht)
    simp [Token.nested]

theorem map_text_nested (ts : List Token) :
    (ts.map Token.nested).map Token.text = ts.map Token.text := by
  rw [List.map_map]
  rfl

theorem Shown.block (hopening : opening.role = .opening .round)
    (hcontent : ∀ t ∈ content, t.Unbracketed) (hclosing : closing.role = .closing .round) :
    Shown (opening :: (content ++ [closing])) :=
  ⟨_, .block hopening hcontent hclosing, visible_nested (List.cons_ne_nil _ _), map_text_nested _⟩

theorem Shown.plain (ht : t.role = .plain) : Shown [t] :=
  ⟨[t], .flat (.inl ht), ⟨⟨t, rfl, ht⟩, fun t' ht' => by cases ht'; simp [ht]⟩, rfl⟩

variable {before old new after : Text}

theorem Swap.of_shown (hts : textOf ts = before ++ old ++ after)
    (hts' : textOf ts' = before ++ new ++ after) (hus : us.map Token.text = ts.map Token.text)
    (hus' : us'.map Token.text = ts'.map Token.text)
    (hfirst : ∀ t ∈ ts.head?, byteSize before < t.byteSize) (hvisible : Visible us)
    (hvisible' : Visible us') : Swap before old new after us us' := by
  refine ⟨(textOf_of_map hus).trans hts, (textOf_of_map hus').trans hts', ?_,
    .inl ⟨hvisible, hvisible'⟩⟩
  intro t ht
  have hhead : us.head?.map Token.text = ts.head?.map Token.text := by
    rw [← List.head?_map, hus, List.head?_map]
  rw [ht] at hhead
  obtain ⟨t', ht', htext⟩ := Option.map_eq_some_iff.1 hhead.symm
  have hsize := hfirst t' ht'
  rwa [Token.byteSize, htext] at hsize

/-- Rows of tokens that are shown may stand in for each other. -/
theorem Exchange.of_shown (hts : textOf ts = before ++ old ++ after)
    (hts' : textOf ts' = before ++ new ++ after) (hne : ts ≠ []) (hne' : ts' ≠ [])
    (hshown : Shown ts) (hshown' : Shown ts') (hsize : ∀ t ∈ ts.head?, byteSize before < t.byteSize)
    (hfirst : ∀ t ∈ ts.head?, t.role = .plain ∨ t.role = .blank ∨ t.role = .opening .round) :
    Exchange before old new after ts ts' := by
  obtain ⟨us, hjoins, hus, htext⟩ := hshown
  obtain ⟨us', hjoins', hus', htext'⟩ := hshown'
  exact ⟨⟨us, us', hjoins, hjoins', .of_shown hts hts' htext htext' hsize hus hus'⟩,
    .of_shown hts hts' (map_text_nested ts) (map_text_nested ts') hsize (visible_nested hne)
      (visible_nested hne'), hfirst⟩

/-- A comment may stand in for another one. -/
theorem Exchange.of_comments (ht : t.role = .blank) {t' : Token} (ht' : t'.role = .blank)
    (htext : t.text = before ++ old ++ after) (htext' : t'.text = before ++ new ++ after)
    (hsize : byteSize before < t.byteSize) : Exchange before old new after [t] [t'] := by
  have hts : textOf [t] = before ++ old ++ after := by simpa using htext
  have hts' : textOf [t'] = before ++ new ++ after := by simpa using htext'
  have hvisible (t : Token) : Visible ([t].map Token.nested) :=
    visible_nested (List.cons_ne_nil t [])
  refine ⟨⟨[t], [t'], .flat (.inr (.inr ht)), .flat (.inr (.inr ht')), hts, hts', ?_,
    .inr ⟨?_, ?_⟩⟩, .of_shown hts hts' (map_text_nested _) (map_text_nested _) ?_ (hvisible t)
      (hvisible t'), ?_⟩
  · simpa using hsize
  · simpa [AllBlank] using ht
  · simpa [AllBlank] using ht'
  · simpa using hsize
  · simp [ht]

end StyleAssets.Css
