import StyleAssets.Proofs.Css.Spans
import StyleAssets.Proofs.Sheet.Walk

/-!
# Rendering

A sheet whose values were changed is rendered as the gaps of its text with the present values
between them.

* `Stylesheet.render?` — rendering with every cut checked.
* `Stylesheet.splice_spec` — one value after the other is put in place.
-/

namespace StyleAssets

open Text

/-- What puts another value in the place of a declaration. -/
def Css.Found.edit (f : Css.Found) (value : Text) : Edit := ⟨f.start, f.stop, value⟩

/-- What puts the present value in place. -/
def Located.edit (l : Located) : Edit := l.found.edit l.value

namespace Stylesheet

/-- `splice` on the whole text, with every cut checked. -/
def splice? (t : Text) (cursor : Nat) : List Located → Option Text
  | [] => slice? cursor (byteSize t) t
  | l :: more => do
    let original ← slice? l.found.start l.found.stop t
    if original = l.value then splice? t cursor more
    else
      let kept ← slice? cursor l.found.start t
      let rest ← splice? t l.found.stop more
      return kept ++ l.value ++ rest

/-- `render` with every cut checked: none if one of them leaves the text, goes backwards or falls
within a character. -/
def render? (s : Stylesheet) : Option Text := splice? s.text 0 s.located

/-- Splicing makes the edits, and every cut is in order. What has been passed over since the last
change is `pending`. -/
theorem splice_spec {located : List Located} {t rest out : Text} (done pending : Text)
    (ht : t = done ++ pending ++ rest)
    (hslice : ∀ l ∈ located, slice? l.found.start l.found.stop t = some l.found.value)
    (h : Edited (byteSize done + byteSize pending) (located.map Located.edit) rest out) :
    splice (pending ++ rest) (byteSize done) located = pending ++ out ∧
      splice? t (byteSize done) located = some (pending ++ out) := by
  induction located generalizing done pending rest out with
  | nil =>
    cases h
    refine ⟨rfl, slice?_of_eq (c := []) ?_ rfl ?_⟩
    · rw [ht, List.append_nil, List.append_assoc]
    · rw [ht, List.append_assoc, byteSize_append]
  | cons l more ih =>
    obtain ⟨gap, old, rest, out', rfl, rfl, hstart, hstop, h⟩ := h.of_cons
    simp only [Located.edit, Css.Found.edit] at hstart hstop ⊢
    have hold : slice? l.found.start l.found.stop t = some old := by
      refine slice?_of_eq (a := done ++ pending ++ gap) (c := rest) ?_ ?_ ?_
      · rw [ht]
        simp only [List.append_assoc]
      · rw [hstart, byteSize_append, byteSize_append]
      · rw [hstop, byteSize_append, byteSize_append]
    have hvalue : l.found.value = old :=
      Option.some.inj ((hslice l List.mem_cons_self).symm.trans hold)
    have hmore := fun l' hl' => hslice l' (List.mem_cons_of_mem l hl')
    simp only [splice, splice?, hold, Option.bind_eq_bind, Option.bind_some]
    by_cases hsame : l.value = old
    · -- an unchanged value is passed over and stays pending
      have htext : t = done ++ (pending ++ gap ++ old) ++ rest := by
        rw [ht]
        simp only [List.append_assoc]
      obtain ⟨hsplice, hchecked⟩ := ih _ _ htext hmore
        (by simpa only [byteSize_append, ← Nat.add_assoc] using h)
      rw [if_pos (hsame.trans hvalue.symm), if_pos hsame.symm, hsame]
      simp only [List.append_assoc] at hsplice hchecked ⊢
      exact ⟨hsplice, hchecked⟩
    · have htext : t = (done ++ pending ++ gap ++ old) ++ [] ++ rest := by
        rw [ht]
        simp only [List.append_assoc, List.append_nil]
      obtain ⟨hsplice, hchecked⟩ := ih _ _ htext hmore
        (by simpa only [byteSize_append, byteSize_nil, Nat.add_zero] using h)
      have hkept : slice? (byteSize done) l.found.start t = some (pending ++ gap) := by
        refine slice?_of_eq (a := done) (c := old ++ rest) ?_ rfl ?_
        · rw [ht]
          simp only [List.append_assoc]
        · rw [hstart, byteSize_append, Nat.add_assoc]
      have htake := (cut_of_eq (n := l.found.start - byteSize done) (a := pending ++ gap)
        (b := old ++ rest) (t := pending ++ (gap ++ old ++ rest)) (by simp only [List.append_assoc])
        (by rw [byteSize_append]; omega)).1
      have hdrop := (cut_of_eq (n := l.found.stop - byteSize done) (a := pending ++ gap ++ old)
        (b := rest) (t := pending ++ (gap ++ old ++ rest)) (by simp only [List.append_assoc])
        (by simp only [byteSize_append]; omega)).2
      have hend : byteSize (done ++ pending ++ gap ++ old) = l.found.stop := by
        rw [hstop]
        simp only [byteSize_append]
      simp only [hend, List.nil_append] at hsplice hchecked
      rw [if_neg (hvalue ▸ hsame), if_neg (Ne.symm hsame), hkept, htake, hdrop, hsplice]
      simp only [Option.bind_some, hchecked, Option.pure_def, List.append_assoc, and_self]

/-- The places of a sheet are those that a scan of its text finds. -/
def FromText (s : Stylesheet) : Prop := s.located.map Located.found = (Css.scan s.text).1

theorem fromText_parse (path : Path) (text : Text) : (parse path text).FromText := by
  show List.map _ (List.map _ _) = _
  rw [List.map_map]
  exact List.map_id _

theorem Walked.fromText {s s' : Stylesheet} (h : Walked s s') (hs : s.FromText) : s'.FromText := by
  unfold FromText at hs ⊢
  rw [h.found_eq.2, h.found_eq.1, hs]

variable {s : Stylesheet}

theorem FromText.slice (h : s.FromText) :
    ∀ l ∈ s.located, slice? l.found.start l.found.stop s.text = some l.found.value := by
  intro l hl
  have hmem : l.found ∈ (Css.scan s.text).1 := by
    rw [← h]
    exact List.mem_map_of_mem hl
  exact (Css.proper_of_mem_scan hmem).slice

/-- The present values can be put in place all at once. -/
theorem FromText.exists_edited (h : s.FromText) :
    ∃ out, Edited 0 (s.located.map Located.edit) s.text out := by
  have hsorted := Css.sorted_scan s.text
  rw [← h] at hsorted
  refine Text.exists_edited [] ?_ (fun _ _ => Nat.zero_le _) ?_
  · intro e he
    obtain ⟨l, hl, rfl⟩ := List.mem_map.1 he
    exact ⟨l.found.value, h.slice l hl⟩
  · rw [List.pairwise_map] at hsorted ⊢
    exact hsorted.imp fun hlt => Nat.le_of_lt hlt

/-- **Rendering makes the edits**, and every cut is in order. -/
theorem FromText.render_spec (h : s.FromText) :
    Edited 0 (s.located.map Located.edit) s.text s.render ∧ s.render? = some s.render := by
  obtain ⟨out, hout⟩ := h.exists_edited
  obtain ⟨hsplice, hchecked⟩ := splice_spec (t := s.text) [] [] rfl h.slice hout
  have hrender : s.render = out := hsplice
  exact ⟨hrender ▸ hout, hrender ▸ hchecked⟩

/-- Values that were not changed leave the text as it is. -/
theorem splice_unchanged {located : List Located} (rest : Text) (cursor : Nat)
    (h : ∀ l ∈ located, l.value = l.found.value) : splice rest cursor located = rest := by
  induction located with
  | nil => rfl
  | cons l more ih =>
    rw [splice, if_pos (h l List.mem_cons_self)]
    exact ih fun l' hl' => h l' (List.mem_cons_of_mem l hl')

theorem FromText.render_eq_text (h : s.FromText)
    (hsame : (StyleTree.declarations s).map Declaration.value =
      (Css.scan s.text).1.map Css.Found.value) : s.render = s.text := by
  rw [← h, declarations_eq, declarations, List.map_map, List.map_map, List.map_inj_left] at hsame
  exact splice_unchanged s.text 0 hsame

theorem declarations_parse (path : Path) (text : Text) :
    StyleTree.declarations (parse path text) =
      (Css.scan text).1.map fun f => ⟨f.property, f.value⟩ := by
  rw [declarations_eq]
  show List.map _ (List.map _ _) = _
  rw [List.map_map]
  rfl

theorem FromText.edits_eq (h : s.FromText) :
    s.located.map Located.edit = List.zipWith Css.Found.edit (Css.scan s.text).1
      ((StyleTree.declarations s).map Declaration.value) := by
  rw [← h, declarations_eq, declarations, List.map_map, List.zipWith_map, List.zipWith_self]
  rfl

theorem FromText.properties_eq (h : s.FromText) :
    (StyleTree.declarations s).map Declaration.property =
      (Css.scan s.text).1.map Css.Found.property := by
  rw [← h, declarations_eq, declarations, List.map_map, List.map_map]
  rfl

/-- A text whose declarations end as they were is rendered as it is. -/
theorem Walked.render_of_same {path : Path} {text : Text} (h : (parse path text).Walked s)
    (hsame : StyleTree.declarations s = StyleTree.declarations (parse path text)) :
    s.render = text := by
  have htext : s.text = text := h.found_eq.1
  rw [(h.fromText (fromText_parse path text)).render_eq_text, htext]
  rw [hsame, declarations_parse, htext, List.map_map]
  rfl

/-- **Spans and lossless rendering.** The values found in any text are slices of it without blanks
at their ends, in order and apart, under properties that are names. Whatever walks make of the
values, rendering cuts the text only where that is possible, and gives the gaps with the present
values between them: the text itself, if no value was changed. Every choice of values is reached. -/
theorem spans_and_lossless_render (path : Path) (text : Text) :
    (∀ f ∈ (Css.scan text).1, f.Proper text) ∧
    ((Css.scan text).1.Pairwise fun f g => f.stop < g.start) ∧
    (∀ s, (parse path text).Walked s →
      (StyleTree.declarations s).map Declaration.property =
        (Css.scan text).1.map Css.Found.property ∧
      s.render? = some s.render ∧
      edit? text (List.zipWith Css.Found.edit (Css.scan text).1
        ((StyleTree.declarations s).map Declaration.value)) = some s.render ∧
      (StyleTree.declarations s = StyleTree.declarations (parse path text) → s.render = text)) ∧
    ∀ values : List Text, values.length = (Css.scan text).1.length →
      ∃ s, (parse path text).Walked s ∧
        (StyleTree.declarations s).map Declaration.value = values := by
  refine ⟨fun f => Css.proper_of_mem_scan, Css.sorted_scan text, fun s hs => ?_,
    fun values hv => ?_⟩
  · have hfrom := hs.fromText (fromText_parse path text)
    have htext : s.text = text := hs.found_eq.1
    obtain ⟨hedits, hchecked⟩ := hfrom.render_spec
    rw [hfrom.edits_eq, htext] at hedits
    have hproperties := hfrom.properties_eq
    rw [htext] at hproperties
    refine ⟨hproperties, hchecked, edit?_eq_some_iff.2 hedits, fun hsame => ?_⟩
    rw [hfrom.render_eq_text, htext]
    rw [hsame, declarations_parse, htext, List.map_map]
    rfl
  · refine (parse path text).exists_walked ?_
    rw [hv, declarations_parse, List.length_map]

theorem render_one_change :
    ∃ s, (parse ⟨[]⟩ "a\x7bb: c ;d:e\x7d".toList).Walked s ∧
      s.render = "a\x7bb: f g ;d:e\x7d".toList := by
  obtain ⟨-, -, hrender, hassign⟩ := spans_and_lossless_render ⟨[]⟩ "a\x7bb: c ;d:e\x7d".toList
  obtain ⟨s, hs, hvalues⟩ := hassign ["f g".toList, "e".toList] (by decide +kernel)
  obtain ⟨-, -, hedits, -⟩ := hrender s hs
  rw [hvalues] at hedits
  exact ⟨s, hs, Option.some.inj (hedits.symm.trans (by decide +kernel))⟩

end Stylesheet

end StyleAssets
