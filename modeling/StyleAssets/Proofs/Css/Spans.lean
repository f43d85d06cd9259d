import StyleAssets.Proofs.Css.Token
import StyleAssets.Proofs.Text.Edit
import StyleAssets.Proofs.Text.Trim

/-!
# Where declarations stand

The values that a scan finds are slices of the text. They come in order, do not touch, and neither
they nor the properties have blanks at their ends.

* `Found.Proper` — what holds of one declaration in its text.
* `Scanner.Sound` — the invariant between two tokens; `Scanner.Sound.step` and
  `Scanner.Sound.foldl` keep it.
* `proper_of_mem_scan`, `sorted_scan` — what holds of a scan.
-/

namespace StyleAssets.Css

open Text

/-! ## One segment -/

theorem dropLastBlanks_prefix (ts : List Token) : dropLastBlanks ts <+: ts :=
  List.rdropWhile_prefix _ ts

/-- What precedes the first colon of a segment, blanks at its end aside. -/
def headOf (segment : List Token) : List Token :=
  dropLastBlanks (segment.takeWhile (·.role != .colon))

theorem headOf_append_blanks (segment : List Token) :
    ∃ blanks, headOf segment ++ blanks = segment.takeWhile (·.role != .colon) ∧
      ∀ t ∈ blanks, t.role = .blank := by
  refine ⟨_, List.rdropWhile_append_rtakeWhile .., fun t ht => ?_⟩
  have := List.mem_rtakeWhile_imp ht
  simpa using this

theorem exists_first_colon {segment : List Token} (h : segment.all (·.role != .colon) = false) :
    ∃ colon after, segment = segment.takeWhile (·.role != .colon) ++ colon :: after ∧
      colon.role = .colon := by
  cases hd : segment.dropWhile (·.role != .colon) with
  | nil =>
    rw [List.all_eq_true.2 (List.dropWhile_eq_nil_iff.1 hd)] at h
    cases h
  | cons colon after =>
    have hcolon := List.head?_dropWhile_not (·.role != .colon) segment
    rw [hd] at hcolon
    exact ⟨colon, after, by rw [← hd, List.takeWhile_append_dropWhile], by simpa using hcolon⟩

/-- A segment with a colon goes on after its head with a blank or with that colon, and this token
is no part of the blanks at the end of the segment. -/
theorem exists_split_of_colon {segment : List Token}
    (h : segment.all (·.role != .colon) = false) :
    ∃ t rest trail, (t.role = .blank ∨ t.role = .colon) ∧
      segment = headOf segment ++ (t :: rest ++ trail) ∧
      dropLastBlanks (segment.drop (headOf segment).length) = t :: rest := by
  obtain ⟨blanks, hhead, hblanks⟩ := headOf_append_blanks segment
  obtain ⟨colon, after, hsegment, hcolon⟩ := exists_first_colon h
  rw [← hhead, List.append_assoc] at hsegment
  have hdrop : segment.drop (headOf segment).length = blanks ++ colon :: after := by
    have := congrArg (List.drop (headOf segment).length) hsegment
    rwa [List.drop_left] at this
  obtain ⟨trail, htrail⟩ := dropLastBlanks_prefix (blanks ++ colon :: after)
  cases hkept : dropLastBlanks (blanks ++ colon :: after) with
  | nil =>
    have := List.rdropWhile_eq_nil_iff.1 hkept colon (by simp)
    simp [hcolon] at this
  | cons t rest =>
    rw [hkept] at htrail
    refine ⟨t, rest, trail, ?_, by rwa [htrail], by rw [hdrop, hkept]⟩
    cases blanks with
    | nil => exact .inr ((List.cons.inj htrail).1 ▸ hcolon)
    | cons b bs => exact .inl ((List.cons.inj htrail).1 ▸ hblanks b List.mem_cons_self)

/-- The text of a segment with a colon: its head, one byte that no value holds, what the value is
taken from, and blank tokens. -/
theorem exists_textOf_split {segment : List Token} (h : segment.all (·.role != .colon) = false)
    (hsmall : ∀ t ∈ segment, t.Small) :
    ∃ c rest trail, c.utf8Size = 1 ∧
      textOf segment = textOf (headOf segment) ++ [c] ++ rest ++ trail ∧
      (textOf (dropLastBlanks (segment.drop (headOf segment).length))).drop 1 = rest := by
  obtain ⟨first, others, trail, hrole, hsegment, hkept⟩ := exists_split_of_colon h
  obtain ⟨c, more, hfirst, hc⟩ := hsmall first (by rw [hsegment]; simp) hrole
  refine ⟨c, more ++ textOf others, textOf trail, hc, ?_, ?_⟩
  · conv_lhs => rw [hsegment]
    simp [hfirst]
  · rw [hkept, textOf_cons, hfirst, List.cons_append, List.drop_one, List.tail_cons]

/-- A declaration that stands in a text. -/
structure Found.Proper (f : Found) (t : Text) : Prop where
  slice : slice? f.start f.stop t = some f.value
  value : Trimmed f.value
  property : Trimmed f.property
  named : f.property ≠ []
  not_at : f.property.head? ≠ some '@'

/-- What a segment says stands in it, behind its first byte. -/
theorem declarationIn?_spec {start stop : Nat} {t : Text} {segment : List Token} {f : Found}
    (hf : declarationIn? start segment = some f)
    (hslice : slice? start stop t = some (textOf segment)) (hsmall : ∀ t ∈ segment, t.Small) :
    f.Proper t ∧ start < f.start ∧ f.stop ≤ stop := by
  simp only [declarationIn?, Bool.or_eq_true, List.isEmpty_iff] at hf
  split at hf
  · cases hf
  rename_i hcond
  obtain ⟨⟨hcolon, hnamed⟩, hat⟩ : (¬ _ ∧ ¬ _) ∧ ¬ _ := by simpa only [not_or] using hcond
  cases hf
  obtain ⟨c, rest, trail, hc, htext, hrest⟩ :=
    exists_textOf_split (Bool.eq_false_iff.2 hcolon) hsmall
  change (textOf (dropLastBlanks (segment.drop (dropLastBlanks
    (segment.takeWhile (·.role != .colon))).length))).drop 1 = rest at hrest
  rw [hrest]
  obtain ⟨behind, hbehind, -⟩ := exists_trail rest
  have hparts : textOf segment = (textOf (headOf segment) ++ [c] ++ rest.takeWhile isBlank) ++
      trim rest ++ (behind ++ trail) := by
    rw [htext]
    conv_lhs => rw [hbehind]
    simp only [List.append_assoc]
  have hvalue := slice?_slice? hslice hparts
  have hstop := stop_of_slice? hslice
  rw [hparts] at hstop
  simp only [byteSize_append, byteSize_cons, byteSize_nil, hc, ← Nat.add_assoc, Nat.add_zero]
    at hvalue hstop
  refine ⟨⟨hvalue, trimmed_trim rest, trimmed_trim _, hnamed, fun h => hat ?_⟩, ?_, ?_⟩
  · rw [startsWithAt, (trimmed_trim _).trim_eq]
    exact beq_iff_eq.2 h
  · show start < start + byteSize (textOf (headOf segment)) + 1 + byteSize (rest.takeWhile isBlank)
    omega
  · show start + byteSize (textOf (headOf segment)) + 1 + byteSize (rest.takeWhile isBlank) +
      byteSize (trim rest) ≤ stop
    omega

/-! ## A whole scan -/

theorem Found.Proper.append {f : Found} {t : Text} (h : f.Proper t) (more : Text) :
    f.Proper (t ++ more) :=
  ⟨slice?_append_right h.slice more, h.value, h.property, h.named, h.not_at⟩

namespace Scanner

/-- Where the segment starts, or where the next one may start at the earliest. -/
def mark (s : Scanner) : Nat := if s.segment = [] then s.offset else s.start

@[simp] theorem segment_push (s : Scanner) (t : Token) : (s.push t).segment = t :: s.segment := by
  unfold push
  split
  · rename_i h
    rw [List.isEmpty_iff.1 h]
  · rfl

@[simp] theorem start_push (s : Scanner) (t : Token) : (s.push t).start = s.mark := by
  simp only [push, mark, List.isEmpty_iff]
  split <;> rfl

@[simp] theorem found_push (s : Scanner) (t : Token) : (s.push t).found = s.found := by
  unfold push
  split <;> rfl

/-- All that one token can do to the segment and to what has been found: a blank between two
segments does nothing, the token or its text as a plain one joins the segment, or the segment ends,
with a declaration or without. -/
inductive Effect (s : Scanner) (t : Token) (s' : Scanner) : Prop
  | ignored (before : s.segment = []) (after : s'.segment = []) (found : s'.found = s.found)
  | joined (t' : Token) (token : t' = t ∨ t' = ⟨.plain, t.text⟩)
      (segment : s'.segment = t' :: s.segment) (start : s'.start = s.mark)
      (found : s'.found = s.found)
  | ended (segment : s'.segment = []) (found : s'.found = s.found ∨ s'.found = s.settled)

theorem take_effect (s : Scanner) (t : Token) : Effect s t (s.take t) := by
  unfold take
  split
  · split
    · rename_i h
      exact .ignored (List.isEmpty_iff.1 h) (List.isEmpty_iff.1 h) rfl
    · exact .joined t (.inl rfl) (segment_push s t) (start_push s t) (found_push s t)
  · exact .ended rfl (.inr rfl)
  · split
    · exact .ended rfl (.inl rfl)
    · exact .ended rfl (.inl rfl)
  · split
    · exact .ended rfl (.inl rfl)
    · exact .ended rfl (.inr rfl)
  · exact .joined _ (.inr rfl) (segment_push s _) (start_push s _) (found_push s _)
  · exact .joined t (.inl rfl) (segment_push s t) (start_push s t) (found_push s t)

theorem pass_effect (s : Scanner) (innermost : Bracket) (outer : List Bracket) (t : Token) :
    Effect s t (s.pass innermost outer t) := by
  by_cases h : s.segment = []
  · refine .ignored h ?_ ?_
    · simp [pass, h]
    · simp [pass, h]
  · refine .joined ⟨.plain, t.text⟩ (.inr rfl) ?_ ?_ ?_
    · simp [pass, h]
    · simp [pass, h]
    · simp [pass, h]

theorem Effect.of_offset {s s' : Scanner} {t : Token} (h : Effect s t s') (offset : Nat) :
    Effect s t { s' with offset } := by
  cases h with
  | ignored before after found => exact .ignored before after found
  | joined t' token segment start found => exact .joined t' token segment start found
  | ended segment found => exact .ended segment found

theorem step_effect (s : Scanner) (t : Token) : Effect s t (s.step t) := by
  unfold step
  cases s.passing with
  | nil => exact (take_effect s t).of_offset _
  | cons innermost outer => exact (pass_effect s innermost outer t).of_offset _

/-- The invariant between two tokens, when `done` has been read: offsets are those of `done`, the
declarations found stand in it, and the last of them ends before the segment starts. -/
structure Sound (done : Text) (s : Scanner) : Prop where
  offset : s.offset = byteSize done
  segment : s.segment ≠ [] → slice? s.start s.offset done = some (textOf s.segment.reverse)
  small : ∀ t ∈ s.segment, t.Small
  found : ∀ f ∈ s.found, f.Proper done
  sorted : s.found.Pairwise fun later earlier => earlier.stop < later.start
  stop_le : ∀ f ∈ s.found, f.stop ≤ s.mark

variable {done : Text} {s : Scanner}

theorem Sound.mark_le (h : Sound done s) : s.mark ≤ s.offset := by
  unfold mark
  split
  · exact Nat.le_refl _
  · rename_i hne
    have := stop_of_slice? (h.segment hne)
    omega

theorem Sound.slice_mark (h : Sound done s) :
    slice? s.mark s.offset done = some (textOf s.segment.reverse) := by
  unfold mark
  split
  · rename_i hnil
    rw [hnil, h.offset]
    have := slice?_append_append done [] []
    simpa using this
  · exact h.segment ‹_›

/-- What is found once the segment is over stands in the text, in order. -/
theorem Sound.settled (h : Sound done s) :
    (∀ f ∈ s.settled, f.Proper done ∧ f.stop ≤ s.offset) ∧
      s.settled.Pairwise fun later earlier => earlier.stop < later.start := by
  have hfound : ∀ f ∈ s.found, f.Proper done ∧ f.stop ≤ s.offset := fun f hf =>
    ⟨h.found f hf, Nat.le_trans (h.stop_le f hf) h.mark_le⟩
  unfold Scanner.settled
  split
  · cases hd : declarationIn? s.start s.segment.reverse with
    | none => exact ⟨hfound, h.sorted⟩
    | some f =>
      have hne : s.segment ≠ [] := by
        intro he
        simp [he, declarationIn?] at hd
      obtain ⟨hproper, hstart, hstop⟩ := declarationIn?_spec hd (h.segment hne)
        fun t ht => h.small t (List.mem_reverse.1 ht)
      refine ⟨fun g hg => ?_, List.pairwise_cons.2 ⟨fun g hg => ?_, h.sorted⟩⟩
      · rcases List.mem_cons.1 hg with rfl | hg
        · exact ⟨hproper, hstop⟩
        · exact hfound g hg
      · have := h.stop_le g hg
        rw [mark, if_neg hne] at this
        omega
  · exact ⟨hfound, h.sorted⟩

theorem Sound.step (h : Sound done s) {t : Token} (ht : t.Small) :
    Sound (done ++ t.text) (s.step t) := by
  have hoffset : (s.step t).offset = byteSize (done ++ t.text) := by
    rw [byteSize_append, ← h.offset]
    rfl
  have hle : s.offset ≤ (s.step t).offset := Nat.le_add_right _ _
  have hproper : ∀ f ∈ s.found, f.Proper (done ++ t.text) := fun f hf => (h.found f hf).append _
  cases step_effect s t with
  | ignored before after found =>
    refine ⟨hoffset, fun hne => absurd after hne, by simp [after], found ▸ hproper,
      found ▸ h.sorted, fun f hf => ?_⟩
    have := h.stop_le f (found ▸ hf)
    rw [mark, if_pos before] at this
    rw [mark, if_pos after]
    omega
  | joined t' token segment start found =>
    have htext : t'.text = t.text := by
      rcases token with rfl | rfl <;> rfl
    have hslice := h.slice_mark
    rw [h.offset] at hslice
    refine ⟨hoffset, fun _ => ?_, fun u hu => ?_, found ▸ hproper, found ▸ h.sorted, fun f hf => ?_⟩
    · rw [start, hoffset, segment, List.reverse_cons, textOf_append, textOf_cons, textOf_nil,
        List.append_nil, htext]
      exact slice?_end_append hslice t.text
    · rw [segment] at hu
      rcases List.mem_cons.1 hu with rfl | hu
      · rcases token with rfl | rfl
        · exact ht
        · exact small_plain t.text
      · exact h.small u hu
    · rw [mark, if_neg (by simp [segment]), start]
      exact h.stop_le f (found ▸ hf)
  | ended segment found =>
    obtain ⟨hsettled, hsorted⟩ := h.settled
    refine ⟨hoffset, fun hne => absurd segment hne, by simp [segment], ?_, ?_, fun f hf => ?_⟩
    · rcases found with found | found
      · exact found ▸ hproper
      · exact fun f hf => (hsettled f (found ▸ hf)).1.append _
    · rcases found with found | found
      · exact found ▸ h.sorted
      · exact found ▸ hsorted
    · have hstop : f.stop ≤ s.offset := by
        rcases found with found | found
        · exact Nat.le_trans (h.stop_le f (found ▸ hf)) h.mark_le
        · exact (hsettled f (found ▸ hf)).2
      rw [mark, if_pos segment]
      omega

theorem Sound.foldl (h : Sound done s) {ts : List Token} (hts : ∀ t ∈ ts, t.Small) :
    Sound (done ++ textOf ts) (ts.foldl Scanner.step s) := by
  induction ts generalizing done s with
  | nil => simpa using h
  | cons t ts ih =>
    have := ih (h.step (hts t List.mem_cons_self)) fun u hu => hts u (List.mem_cons_of_mem _ hu)
    rwa [List.append_assoc] at this

theorem sound_init : Sound [] {} where
  offset := rfl
  segment h := absurd rfl h
  small := by simp
  found := by simp
  sorted := .nil
  stop_le := by simp

/-- **The invariant holds at the end of a text.** -/
theorem sound_tokens (t : Text) : Sound t ((tokens t).foldl Scanner.step {}) := by
  have := sound_init.foldl (fun _ => small_of_mem_tokens (t := t))
  rwa [List.nil_append, textOf_tokens] at this

end Scanner

theorem proper_of_mem_scan {t : Text} {f : Found} (h : f ∈ (scan t).1) : f.Proper t :=
  ((Scanner.sound_tokens t).settled.1 f (List.mem_reverse.1 h)).1

theorem sorted_scan (t : Text) :
    (scan t).1.Pairwise fun earlier later => earlier.stop < later.start :=
  List.pairwise_reverse.2 (Scanner.sound_tokens t).settled.2

end StyleAssets.Css
