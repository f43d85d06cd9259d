import StyleAssets.Proofs.Css.Recursion

/-!
# Other tokens within a declaration

A declaration keeps its place and its property if some tokens within its value give way to others.

* `Swap` — a row of tokens, and another one that differs in a part of its text.
* `Swap.headOf` — what precedes the colon stays.
* `Swap.declarationIn?` — **main result**: what becomes of the declaration, whose value has the
  other text in that part.
-/

namespace StyleAssets.Css

open Text

/-- Something to see at both ends: a plain token first, and a token last that is not blank. -/
structure Visible (ts : List Token) : Prop where
  first : ∃ t ∈ ts.head?, t.role = .plain
  last : ∀ t ∈ ts.getLast?, t.role ≠ .blank

/-- Nothing but blank tokens. -/
def AllBlank (ts : List Token) : Prop := ∀ t ∈ ts, t.role = .blank

/-- Two rows of tokens in a segment, the same up to a part of their text, which is `old` in the one
and `new` in the other. That part begins within the first token. -/
structure Swap (before old new after : Text) (ts ts' : List Token) : Prop where
  text : textOf ts = before ++ old ++ after
  text' : textOf ts' = before ++ new ++ after
  first : ∀ t ∈ ts.head?, byteSize before < t.byteSize
  alike : Visible ts ∧ Visible ts' ∨ AllBlank ts ∧ AllBlank ts'

/-! ## Blanks at the end of a segment -/

section

variable {ts us : List Token}

theorem dropLastBlanks_append_blank (h : AllBlank us) :
    dropLastBlanks (ts ++ us) = dropLastBlanks ts :=
  rdropWhile_append_of_forall fun t ht => beq_iff_eq.2 (h t ht)

theorem dropLastBlanks_append_visible (h : ¬AllBlank us) :
    dropLastBlanks (ts ++ us) = ts ++ dropLastBlanks us := by
  refine rdropWhile_append_of_exists ?_
  simpa [AllBlank] using h

theorem dropLastBlanks_append_of_last (h : ∀ t ∈ ts.getLast?, t.role ≠ .blank) :
    dropLastBlanks (ts ++ us) = ts ++ dropLastBlanks us :=
  rdropWhile_append_of_last fun t ht => beq_eq_false_iff_ne.2 (h t ht)

theorem AllBlank.all_not_colon (h : AllBlank us) : ∀ t ∈ us, (t.role != .colon) = true := by
  intro t ht
  rw [h t ht]
  rfl

/-- What precedes the first colon does not depend on what follows it. -/
theorem headOf_append_of_colon (h : ∃ t ∈ ts, t.role = .colon) : headOf (ts ++ us) = headOf ts := by
  obtain ⟨t, ht, hcolon⟩ := h
  have hlength : (ts.takeWhile (·.role != .colon)).length ≠ ts.length := by
    intro hlength
    have hall : ts.takeWhile (·.role != .colon) = ts :=
      (List.takeWhile_sublist _).eq_of_length hlength
    have := List.takeWhile_eq_self_iff.1 hall t ht
    simp [hcolon] at this
  rw [headOf, List.takeWhile_append, if_neg hlength]
  rfl

/-- Without a colon it goes on. -/
theorem headOf_append_of_no_colon (h : ∀ t ∈ ts, (t.role != .colon) = true) :
    headOf (ts ++ us) = dropLastBlanks (ts ++ us.takeWhile (·.role != .colon)) := by
  rw [headOf, List.takeWhile_append_of_pos h]

end

/-! ## The head of a segment -/

namespace Swap

variable {before old new after : Text} {ts ts' pre post : List Token}

theorem ne_nil (h : Swap before old new after ts ts') (hold : old ≠ []) : ts ≠ [] := by
  rintro rfl
  have := h.text
  simp [hold] at this

/-- If the head of a segment ends before the part, it holds nothing to see of the swapped tokens. -/
theorem allBlank_of_le (h : Swap before old new after ts ts') (hold : old ≠ [])
    (hle : byteSize (textOf (dropLastBlanks (pre ++ (ts ++ post).takeWhile (·.role != .colon)))) ≤
      byteSize (textOf pre ++ before)) :
    AllBlank ((ts ++ post).takeWhile (·.role != .colon)) := by
  by_contra hvisible
  rw [dropLastBlanks_append_visible hvisible, textOf_append, byteSize_append,
    byteSize_append] at hle
  -- the head would hold the first of the tokens, where the part begins
  obtain ⟨t, more, hts⟩ := List.exists_cons_of_ne_nil (h.ne_nil hold)
  have hfirst := h.first t (by rw [hts]; rfl)
  have hfront := List.IsPrefix.trans ( dropLastBlanks_prefix _)
    (List.takeWhile_prefix (l := ts ++ post) (·.role != .colon))
  cases hkept : dropLastBlanks ((ts ++ post).takeWhile (·.role != .colon)) with
  | nil =>
    refine hvisible fun t ht => ?_
    exact beq_iff_eq.1 (List.rdropWhile_eq_nil_iff.1 hkept t ht)
  | cons t' kept =>
    rw [hkept, hts] at hfront
    obtain rfl : t' = t := (List.cons_prefix_cons.1 hfront).1
    rw [hkept, textOf_cons, byteSize_append] at hle
    have hsize : byteSize t'.text = t'.byteSize := rfl
    omega

/-- If there is nothing to see up to the first colon, both rows are blank. -/
theorem allBlank_of_takeWhile (h : Swap before old new after ts ts')
    (hblank : AllBlank ((ts ++ post).takeWhile (·.role != .colon))) :
    AllBlank ts ∧ AllBlank ts' := by
  obtain ⟨hvisible, -⟩ | halike := h.alike
  · obtain ⟨t, ht, hplain⟩ := hvisible.first
    obtain ⟨more, hts⟩ := List.head?_eq_some_iff.1 ht
    have hrole : t.role = .blank := by
      refine hblank t ?_
      rw [hts, List.cons_append, List.takeWhile_cons_of_pos (by simp [hplain])]
      exact List.mem_cons_self
    rw [hplain] at hrole
    cases hrole
  · exact halike

/-- If the head of a segment ends before the part, it is the same after the swap, and all of it
stands before the tokens that were swapped. -/
theorem headOf (h : Swap before old new after ts ts') (hold : old ≠ [])
    (hle : byteSize (textOf (headOf (pre ++ (ts ++ post)))) ≤ byteSize (textOf pre ++ before)) :
    headOf (pre ++ (ts' ++ post)) = headOf (pre ++ (ts ++ post)) ∧
      headOf (pre ++ (ts ++ post)) <+: pre ∧
      ((∃ t ∈ pre ++ (ts ++ post), t.role = .colon) →
        ∃ t ∈ pre ++ (ts' ++ post), t.role = .colon) := by
  by_cases hpre : ∃ t ∈ pre, t.role = .colon
  · rw [headOf_append_of_colon hpre, headOf_append_of_colon hpre]
    obtain ⟨t, ht, hcolon⟩ := hpre
    exact ⟨rfl, ( dropLastBlanks_prefix _).trans (List.takeWhile_prefix _),
      fun _ => ⟨t, List.mem_append_left _ ht, hcolon⟩⟩
  · have hnone : ∀ t ∈ pre, (t.role != .colon) = true := by
      intro t ht
      exact bne_iff_ne.2 fun hcolon => hpre ⟨t, ht, hcolon⟩
    rw [headOf_append_of_no_colon hnone] at hle ⊢
    have hblank := h.allBlank_of_le hold hle
    obtain ⟨hts, hts'⟩ := h.allBlank_of_takeWhile hblank
    have hblank' : AllBlank ((ts' ++ post).takeWhile (·.role != .colon)) := by
      rw [List.takeWhile_append_of_pos hts.all_not_colon] at hblank
      rw [List.takeWhile_append_of_pos hts'.all_not_colon]
      intro t ht
      exact (List.mem_append.1 ht).elim (hts' t) fun ht => hblank t (List.mem_append_right _ ht)
    rw [headOf_append_of_no_colon hnone, dropLastBlanks_append_blank hblank,
      dropLastBlanks_append_blank hblank']
    refine ⟨rfl, dropLastBlanks_prefix pre, ?_⟩
    rintro ⟨t, ht, hcolon⟩
    refine ⟨t, ?_, hcolon⟩
    obtain ht | ht := List.mem_append.1 ht
    · exact List.mem_append_left _ ht
    · obtain ht | ht := List.mem_append.1 ht
      · rw [hts t ht] at hcolon
        cases hcolon
      · exact List.mem_append_right _ (List.mem_append_right _ ht)

/-! ## The value of a declaration -/

/-- Tokens that come before something to see are kept. -/
theorem dropLastBlanks_eq (hts : Visible ts ∨ ¬AllBlank post) :
    dropLastBlanks (pre ++ (ts ++ post)) = pre ++ (ts ++ dropLastBlanks post) := by
  obtain hts | hpost := hts
  · have hlast : ∀ t ∈ (pre ++ ts).getLast?, t.role ≠ .blank := by
      obtain ⟨t, ht, -⟩ := hts.first
      obtain ⟨more, rfl⟩ := List.head?_eq_some_iff.1 ht
      rw [List.getLast?_append_of_ne_nil _ (List.cons_ne_nil _ _)]
      exact hts.last
    rw [← List.append_assoc, dropLastBlanks_append_of_last hlast, List.append_assoc]
  · rw [← List.append_assoc, dropLastBlanks_append_visible hpost, List.append_assoc]

/-- What follows the head of a segment starts with one byte that no value holds. -/
theorem exists_behind {segment : List Token} (h : ∃ t ∈ segment, t.role = .colon)
    (hsmall : ∀ t ∈ segment, t.Small) : ∃ c rest, c.utf8Size = 1 ∧
      textOf (dropLastBlanks (segment.drop (Css.headOf segment).length)) = c :: rest := by
  have hcolon : segment.all (·.role != .colon) = false := by simpa using h
  obtain ⟨t, rest, trail, hrole, hsegment, hkept⟩ := exists_split_of_colon hcolon
  obtain ⟨c, more, htext, hc⟩ := hsmall t (by rw [hsegment]; simp) hrole
  exact ⟨c, more ++ textOf rest, hc, by rw [hkept, textOf_cons, htext, List.cons_append]⟩

/-- The text of a segment up to its last token to see, with the part in it. -/
theorem textOf_kept {part : Text} (htext : textOf ts = before ++ part ++ after)
    (hts : Visible ts ∨ ¬AllBlank post) : textOf (dropLastBlanks (pre ++ (ts ++ post))) =
      textOf pre ++ before ++ part ++ (after ++ textOf (dropLastBlanks post)) := by
  rw [dropLastBlanks_eq hts, textOf_append, textOf_append, htext]
  simp only [List.append_assoc]

/-- Were there nothing to see from the swapped tokens on, a value would end before the part. -/
theorem visible_of_value (h : Swap before old new after ts ts') (hold : old ≠ []) {c : Char}
    {rest lead trail : Text} (hc : c.utf8Size = 1)
    (hrest : textOf (dropLastBlanks (pre ++ (ts ++ post))) = c :: rest)
    (hvalue : trim rest = lead ++ old ++ trail)
    (hplace : 1 + byteSize (rest.takeWhile isBlank) + byteSize lead =
      byteSize (textOf pre ++ before)) : Visible ts ∨ ¬AllBlank post := by
  by_contra hnone
  obtain ⟨hts, hpost⟩ := not_or.1 hnone
  have hall : AllBlank (ts ++ post) := by
    intro t ht
    obtain ⟨hvisible, -⟩ | ⟨hblank, -⟩ := h.alike
    · exact absurd hvisible hts
    · exact (List.mem_append.1 ht).elim (hblank t) (not_not.1 hpost t)
  rw [dropLastBlanks_append_blank hall] at hrest
  obtain ⟨dropped, hpre⟩ := dropLastBlanks_prefix pre
  obtain ⟨behind, hbehind, -⟩ := exists_trail rest
  have hrestSize := congrArg byteSize hbehind
  have hpreSize := congrArg (fun ts => byteSize (textOf ts)) hpre
  have hvalueSize := congrArg byteSize hvalue
  have holdSize : byteSize old ≠ 0 := fun hzero => hold (byteSize_eq_zero.1 hzero)
  simp only [textOf_append, hrest, byteSize_append, byteSize_cons, hc] at *
  omega

/-- There is as much to see after the swap. -/
theorem visible_after (h : Swap before old new after ts ts') (hts : Visible ts ∨ ¬AllBlank post) :
    Visible ts' ∨ ¬AllBlank post := by
  obtain ⟨-, hts'⟩ | ⟨hblank, -⟩ := h.alike
  · exact .inl hts'
  · refine hts.elim (fun hvisible => ?_) .inr
    obtain ⟨t, ht, hplain⟩ := hvisible.first
    rw [hblank t (List.mem_of_mem_head? ht)] at hplain
    cases hplain

/-- What trimming leaves on both sides of a part, if it leaves as much before it as stands there. -/
theorem trim_around_inj {front behind lead trail : Text} (hold : Trimmed old ∧ old ≠ [])
    (hvalue : trim (front ++ old ++ behind) = lead ++ old ++ trail)
    (hplace : byteSize ((front ++ old ++ behind).takeWhile isBlank) + byteSize lead =
      byteSize front) : trimStart front = lead ∧ trimEnd behind = trail := by
  rw [takeWhile_around hold.1 hold.2] at hplace
  rw [trim_around hold.1 hold.2, List.append_assoc, List.append_assoc] at hvalue
  have hfront := congrArg byteSize (List.takeWhile_append_dropWhile (p := isBlank) (l := front))
  rw [byteSize_append] at hfront
  have hlead : byteSize (trimStart front) = byteSize lead := by
    rw [trimStart]
    omega
  obtain ⟨hstart, hend⟩ := append_inj_of_byteSize hvalue hlead
  exact ⟨hstart, List.append_cancel_left hend⟩

/-- **A declaration whose value holds the part** has the other text there after the swap, and is the
same in all other respects. -/
theorem declarationIn? (h : Swap before old new after ts ts') (hold : Trimmed old ∧ old ≠ [])
    (hnew : Trimmed new ∧ new ≠ []) {start : Nat} {f : Found} {lead trail : Text}
    (hsmall : ∀ t ∈ pre ++ (ts ++ post), t.Small)
    (hf : declarationIn? start (pre ++ (ts ++ post)) = some f)
    (hvalue : f.value = lead ++ old ++ trail)
    (hplace : f.start + byteSize lead = start + byteSize (textOf pre ++ before)) :
    Css.declarationIn? start (pre ++ (ts' ++ post)) =
      some { f with value := lead ++ new ++ trail } := by
  rw [declarationIn?_eq ⟨start, pre ++ (ts ++ post)⟩] at hf
  rw [declarationIn?_eq ⟨start, pre ++ (ts' ++ post)⟩]
  split at hf
  swap
  · cases hf
  rename_i hdeclares
  cases hf
  obtain ⟨hcolon, hproperty⟩ := hdeclares
  obtain ⟨c, rest, hc, hrest⟩ := exists_behind hcolon hsmall
  have hbehind : Segment.behind ⟨start, pre ++ (ts ++ post)⟩ = rest := by
    rw [Segment.behind, hrest]
    rfl
  simp only [Segment.declaration, hbehind] at hvalue hplace
  have hle : byteSize (textOf (Css.headOf (pre ++ (ts ++ post)))) ≤
      byteSize (textOf pre ++ before) := by omega
  obtain ⟨hhead, ⟨between, hpre⟩, hcolon'⟩ := h.headOf hold.2 hle
  have hproperty' : Segment.property ⟨start, pre ++ (ts' ++ post)⟩ =
      Segment.property ⟨start, pre ++ (ts ++ post)⟩ := by
    rw [Segment.property, Segment.property, hhead]
  rw [if_pos ⟨hcolon' hcolon, by rwa [hproperty']⟩]
  have hdrop (us : List Token) :
      (pre ++ us).drop (Css.headOf (pre ++ (ts ++ post))).length = between ++ us := by
    have hcut : Css.headOf (pre ++ (ts ++ post)) ++ (between ++ us) = pre ++ us := by
      rw [← List.append_assoc, hpre]
    rw [← hcut, List.drop_left]
  rw [hdrop] at hrest
  -- counted from the head on, the part stands behind one byte, some blanks and `lead`
  have hsize : 1 + byteSize (rest.takeWhile isBlank) + byteSize lead =
      byteSize (textOf between ++ before) := by
    have hpreText := congrArg (fun ts => byteSize (textOf ts)) hpre
    simp only [textOf_append, byteSize_append] at hpreText hplace ⊢
    omega
  have hvisible := h.visible_of_value hold.2 hc hrest hvalue hsize
  rw [textOf_kept h.text hvisible] at hrest
  obtain ⟨front, hfront⟩ : ∃ front, textOf between ++ before = c :: front := by
    cases hbefore : textOf between ++ before with
    | nil =>
      rw [hbefore, byteSize_nil] at hsize
      omega
    | cons c' front =>
      rw [hbefore] at hrest
      exact ⟨front, by rw [(List.cons.inj hrest).1]⟩
  rw [hfront] at hrest hsize
  have hrestText : rest = front ++ old ++ (after ++ textOf (dropLastBlanks post)) :=
    (List.cons.inj hrest).2.symm
  rw [hrestText] at hvalue hsize
  rw [byteSize_cons, hc, Nat.add_assoc] at hsize
  obtain ⟨hlead, htrail⟩ := trim_around_inj hold hvalue (Nat.add_left_cancel hsize)
  have hbehind' : Segment.behind ⟨start, pre ++ (ts' ++ post)⟩ =
      front ++ new ++ (after ++ textOf (dropLastBlanks post)) := by
    rw [Segment.behind, hhead, hdrop, textOf_kept h.text' (h.visible_after hvisible), hfront]
    rfl
  simp only [Segment.declaration, hproperty', hbehind', hbehind, hhead, hrestText,
    trim_around hnew.1 hnew.2, takeWhile_around hnew.1 hnew.2, takeWhile_around hold.1 hold.2,
    hlead, htrail]

end Swap

end StyleAssets.Css
