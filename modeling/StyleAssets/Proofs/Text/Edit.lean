import StyleAssets.Text.Basic

/-!
# Slices and edits

Parts of a text between byte offsets, and several parts replaced at once.

* `Text.slice?` — a part of a text; `slice?_eq_some_iff` says when it exists and what it is.
* `Text.edit?` — the text after some edits. It exists only if the edits lie in the text, cut no
  character, come in order and do not overlap.
* `Text.Edited` — the same as a relation; `edit?_eq_some_iff` says that the two agree, and
  `exists_edited` that edits at slices in order can be made.
-/

namespace StyleAssets.Text

/-! ## Cutting at a byte -/

@[simp] theorem takeBytes_zero (t : Text) : takeBytes 0 t = [] := by
  cases t with
  | nil => rfl
  | cons c t =>
    have hc := c.utf8Size_pos
    rw [takeBytes, if_neg (by omega)]

theorem takeBytes_append (s t : Text) : takeBytes (byteSize s) (s ++ t) = s := by
  rw [takeBytes_byteSize, takeBytes_zero, List.append_nil]

theorem dropBytes_append (s t : Text) : dropBytes (byteSize s) (s ++ t) = t := by
  have h := takeBytes_append_dropBytes (byteSize s) (s ++ t)
  rw [takeBytes_append] at h
  exact List.append_cancel_left h

theorem cut_of_eq {n : Nat} {t a b : Text} (ht : t = a ++ b) (hn : n = byteSize a) :
    takeBytes n t = a ∧ dropBytes n t = b := by
  subst ht hn
  exact ⟨takeBytes_append a b, dropBytes_append a b⟩

theorem byteSize_eq_zero {t : Text} : byteSize t = 0 ↔ t = [] := by
  cases t with
  | nil => simp
  | cons c t =>
    have hc := c.utf8Size_pos
    simp only [byteSize_cons, reduceCtorEq, iff_false]
    omega

/-- Of two ways to divide one text, the shorter first part is the start of the longer one. -/
theorem exists_between_of_append_eq {a b c d : Text} (h : a ++ b = c ++ d)
    (hle : byteSize a ≤ byteSize c) : ∃ m, c = a ++ m ∧ b = m ++ d := by
  rcases List.append_eq_append_iff.1 h with ⟨m, hc, hb⟩ | ⟨m, ha, hd⟩
  · exact ⟨m, hc, hb⟩
  · have hm : m = [] := by
      rw [ha, byteSize_append] at hle
      exact byteSize_eq_zero.1 (by omega)
    subst hm
    exact ⟨[], by simpa using ha.symm, by simpa using hd.symm⟩

theorem append_inj_of_byteSize {a b c d : Text} (h : a ++ b = c ++ d)
    (hs : byteSize a = byteSize c) : a = c ∧ b = d := by
  obtain ⟨m, hc, hb⟩ := exists_between_of_append_eq h (Nat.le_of_eq hs)
  have hm : m = [] := by
    rw [hc, byteSize_append] at hs
    exact byteSize_eq_zero.1 (by omega)
  subst hm
  exact ⟨by rw [hc, List.append_nil], by rw [hb, List.nil_append]⟩

/-! ## Slices -/

/-- The part of a text between two byte offsets, if they come in order, lie in the text and cut no
character. -/
def slice? (start stop : Nat) (t : Text) : Option Text :=
  let part := takeBytes (stop - start) (dropBytes start t)
  if byteSize (takeBytes start t) = start ∧ start + byteSize part = stop then some part else none

theorem slice?_append_append (a b c : Text) :
    slice? (byteSize a) (byteSize a + byteSize b) (a ++ b ++ c) = some b := by
  unfold slice?
  rw [List.append_assoc, takeBytes_append, dropBytes_append, Nat.add_sub_cancel_left,
    takeBytes_append]
  exact if_pos ⟨rfl, rfl⟩

theorem slice?_of_eq {start stop : Nat} {t a b c : Text} (ht : t = a ++ b ++ c)
    (hstart : start = byteSize a) (hstop : stop = byteSize a + byteSize b) :
    slice? start stop t = some b := by
  subst ht hstart hstop
  exact slice?_append_append a b c

theorem slice?_eq_some_iff {start stop : Nat} {t part : Text} :
    slice? start stop t = some part ↔ ∃ before after,
      t = before ++ part ++ after ∧ byteSize before = start ∧ start + byteSize part = stop := by
  constructor
  · intro h
    simp only [slice?] at h
    split at h
    · rename_i hs
      cases h
      refine ⟨takeBytes start t, dropBytes (stop - start) (dropBytes start t), ?_, hs.1, hs.2⟩
      rw [List.append_assoc, takeBytes_append_dropBytes, takeBytes_append_dropBytes]
    · cases h
  · rintro ⟨before, after, rfl, rfl, rfl⟩
    exact slice?_append_append before part after

theorem slice?_append_right {start stop : Nat} {t part : Text} (h : slice? start stop t = some part)
    (more : Text) : slice? start stop (t ++ more) = some part := by
  obtain ⟨before, after, rfl, hb, hs⟩ := slice?_eq_some_iff.1 h
  exact slice?_eq_some_iff.2 ⟨before, after ++ more, by simp only [List.append_assoc], hb, hs⟩

theorem stop_of_slice? {start stop : Nat} {t part : Text} (h : slice? start stop t = some part) :
    start + byteSize part = stop := by
  obtain ⟨before, after, -, -, hs⟩ := slice?_eq_some_iff.1 h
  exact hs

/-- A slice that reaches the end of a text grows with it. -/
theorem slice?_end_append {start : Nat} {t part : Text}
    (h : slice? start (byteSize t) t = some part) (more : Text) :
    slice? start (byteSize (t ++ more)) (t ++ more) = some (part ++ more) := by
  obtain ⟨before, after, ht, hb, hs⟩ := slice?_eq_some_iff.1 h
  have hafter : after = [] := by
    rw [ht] at hs
    simp only [byteSize_append] at hs
    exact byteSize_eq_zero.1 (by omega)
  refine slice?_eq_some_iff.2 ⟨before, [], ?_, hb, ?_⟩
  · simp only [ht, hafter, List.append_assoc, List.append_nil]
  · rw [byteSize_append, byteSize_append, ← Nat.add_assoc, hs]

/-- A slice of a slice. -/
theorem slice?_slice? {start stop : Nat} {t part before inner after : Text}
    (h : slice? start stop t = some part) (hp : part = before ++ inner ++ after) :
    slice? (start + byteSize before) (start + byteSize before + byteSize inner) t = some inner := by
  obtain ⟨first, last, rfl, hf, -⟩ := slice?_eq_some_iff.1 h
  refine slice?_eq_some_iff.2 ⟨first ++ before, after ++ last, ?_, ?_, rfl⟩
  · simp only [hp, List.append_assoc]
  · rw [byteSize_append, hf]

/-! ## Edits -/

/-- A change to a text: the bytes from `start` to `stop` give way to `new`. -/
structure Edit where
  start : Nat
  stop : Nat
  new : Text
  deriving DecidableEq, Repr

/-- What becomes of a text from byte `cursor` on under some edits: the gaps between them stay. -/
def editFrom? (t : Text) (cursor : Nat) : List Edit → Option Text
  | [] => slice? cursor (byteSize t) t
  | e :: more => do
    let gap ← slice? cursor e.start t
    let _ ← slice? e.start e.stop t
    let rest ← editFrom? t e.stop more
    return gap ++ e.new ++ rest

/-- The text with all edits made at once, if each of them begins where the one before has ended or
later, lies in the text and cuts no character. -/
def edit? (t : Text) (edits : List Edit) : Option Text := editFrom? t 0 edits

/-- A text that starts at byte `offset` of a larger one, and what becomes of it under some edits. -/
inductive Edited : Nat → List Edit → Text → Text → Prop
  | keep (offset : Nat) (t : Text) : Edited offset [] t t
  | change {offset : Nat} {edits : List Edit} {rest out : Text} (gap old new : Text)
      (h : Edited (offset + byteSize gap + byteSize old) edits rest out) :
      Edited offset (⟨offset + byteSize gap, offset + byteSize gap + byteSize old, new⟩ :: edits)
        (gap ++ old ++ rest) (gap ++ new ++ out)

theorem Edited.of_cons {offset : Nat} {e : Edit} {edits : List Edit} {t out : Text}
    (h : Edited offset (e :: edits) t out) :
    ∃ gap old rest out', t = gap ++ old ++ rest ∧ out = gap ++ e.new ++ out' ∧
      e.start = offset + byteSize gap ∧ e.stop = offset + byteSize gap + byteSize old ∧
      Edited (offset + byteSize gap + byteSize old) edits rest out' := by
  cases h with
  | @change _ _ rest out' gap old new h => exact ⟨gap, old, rest, out', rfl, rfl, rfl, rfl, h⟩

/-- What precedes the first edit may be longer. -/
theorem Edited.extend {offset : Nat} {edits : List Edit} {t out : Text} (more : Text)
    (h : Edited (offset + byteSize more) edits t out) :
    Edited offset edits (more ++ t) (more ++ out) := by
  cases h with
  | keep => exact .keep offset (more ++ t)
  | @change _ edits rest out gap old new h =>
    have hlater : Edited (offset + byteSize (more ++ gap) + byteSize old) edits rest out := by
      simpa only [byteSize_append, Nat.add_assoc] using h
    simpa only [byteSize_append, List.append_assoc, Nat.add_assoc]
      using Edited.change (more ++ gap) old new hlater

theorem Edited.editFrom? {edits : List Edit} {rest out : Text} (done : Text)
    (h : Edited (byteSize done) edits rest out) :
    editFrom? (done ++ rest) (byteSize done) edits = some out := by
  induction edits generalizing done rest out with
  | nil =>
    cases h
    have := slice?_append_append done rest []
    rwa [List.append_nil, ← byteSize_append] at this
  | cons e edits ih =>
    cases h with
    | change gap old new h =>
      rename_i rest out
      have hgap := slice?_append_append done gap (old ++ rest)
      have hold := slice?_append_append (done ++ gap) old rest
      have hrest := ih (done ++ gap ++ old) (by simpa only [byteSize_append] using h)
      simp only [byteSize_append, List.append_assoc, Nat.add_assoc] at hgap hold hrest ⊢
      simp only [Text.editFrom?, hgap, hold, hrest, Option.bind_eq_bind, Option.bind_some,
        Option.pure_def, List.append_assoc]

theorem edited_of_editFrom? {t : Text} {edits : List Edit} {cursor : Nat} {out : Text}
    (h : editFrom? t cursor edits = some out) :
    ∃ done rest, t = done ++ rest ∧ byteSize done = cursor ∧ Edited cursor edits rest out := by
  induction edits generalizing cursor out with
  | nil =>
    obtain ⟨done, after, ht, hd, hs⟩ := slice?_eq_some_iff.1 h
    have hafter : after = [] := by
      rw [ht, byteSize_append, byteSize_append] at hs
      exact byteSize_eq_zero.1 (by omega)
    subst hafter
    exact ⟨done, out, by rwa [List.append_nil] at ht, hd, .keep cursor out⟩
  | cons e edits ih =>
    simp only [editFrom?, Option.bind_eq_bind, Option.pure_def, Option.bind_eq_some_iff] at h
    obtain ⟨gap, hgap, old, hold, out, hout, h⟩ := h
    cases h
    obtain ⟨done, after, ht, hd, hg⟩ := slice?_eq_some_iff.1 hgap
    obtain ⟨before, after', ht', hb, ho⟩ := slice?_eq_some_iff.1 hold
    obtain ⟨done', rest, ht'', hd', he⟩ := ih hout
    have hsplit : done ++ gap = before ∧ after = old ++ after' := by
      rw [List.append_assoc before] at ht'
      exact append_inj_of_byteSize (ht.symm.trans ht') (by rw [byteSize_append]; omega)
    obtain ⟨rfl, rfl⟩ := hsplit
    have hrest : done ++ gap ++ old = done' ∧ after' = rest := by
      refine append_inj_of_byteSize (ht'.symm.trans ht'') ?_
      rw [byteSize_append]
      omega
    obtain ⟨rfl, rfl⟩ := hrest
    have hstart : e = ⟨cursor + byteSize gap, cursor + byteSize gap + byteSize old, e.new⟩ := by
      rw [hg, ho]
    refine ⟨done, gap ++ old ++ after', by simpa only [List.append_assoc] using ht', hd, ?_⟩
    rw [hstart]
    exact .change gap old e.new (by rwa [hg, ho])

theorem edit?_eq_some_iff {t out : Text} {edits : List Edit} :
    edit? t edits = some out ↔ Edited 0 edits t out := by
  constructor
  · intro h
    obtain ⟨done, rest, rfl, hd, he⟩ := edited_of_editFrom? h
    rw [byteSize_eq_zero.1 hd]
    exact he
  · exact Edited.editFrom? []

/-- How an edit may be confined to what really changes: it may change nothing, or only a part of
what it stands in for. -/
inductive Edit.Narrows (t : Text) (e : Edit) : Option Edit → Prop
  | unchanged (h : slice? e.start e.stop t = some e.new) : Narrows t e none
  | part (before old after new : Text)
      (h : slice? e.start e.stop t = some (before ++ old ++ after))
      (hnew : e.new = before ++ new ++ after) :
      Narrows t e (some ⟨e.start + byteSize before, e.start + byteSize before + byteSize old, new⟩)

/-- Confined edits come to the same. -/
theorem Edited.narrow {α : Type} {wide : α → Edit} {narrow? : α → Option Edit} {items : List α}
    {rest out : Text} (done : Text)
    (hitems : ∀ x ∈ items, (wide x).Narrows (done ++ rest) (narrow? x))
    (h : Edited (byteSize done) (items.map wide) rest out) :
    Edited (byteSize done) (items.filterMap narrow?) rest out := by
  induction items generalizing done rest out with
  | nil => exact h
  | cons x items ih =>
    obtain ⟨gap, old, rest, out, rfl, rfl, hstart, hstop, h⟩ := h.of_cons
    have htext : done ++ (gap ++ old ++ rest) = done ++ gap ++ old ++ rest := by
      simp only [List.append_assoc]
    have hold : slice? (wide x).start (wide x).stop (done ++ (gap ++ old ++ rest)) = some old := by
      refine slice?_of_eq htext ?_ ?_
      · rw [hstart, byteSize_append]
      · rw [hstop, byteSize_append]
    have hlater : Edited (byteSize done + byteSize gap + byteSize old) (items.filterMap narrow?)
        rest out := by
      have hlater := ih (done ++ gap ++ old)
        (fun x' hx' => htext ▸ hitems x' (List.mem_cons_of_mem x hx'))
        (by simpa only [byteSize_append] using h)
      simpa only [byteSize_append] using hlater
    have hx := hitems x List.mem_cons_self
    generalize hnarrow : narrow? x = narrowed at hx
    cases hx with
    | unchanged hsame =>
      rw [List.filterMap_cons_none hnarrow, ← Option.some.inj (hold.symm.trans hsame)]
      exact Edited.extend (gap ++ old) (by simpa only [byteSize_append, Nat.add_assoc] using hlater)
    | part before token after new hpart hnew =>
      have hsplit : old = before ++ token ++ after := Option.some.inj (hold.symm.trans hpart)
      rw [List.filterMap_cons_some hnarrow, hnew, hsplit, hstart]
      have hend : Edited (byteSize done + byteSize (gap ++ before) + byteSize token)
          (items.filterMap narrow?) (after ++ rest) (after ++ out) := by
        refine Edited.extend after ?_
        simpa only [hsplit, byteSize_append, Nat.add_assoc] using hlater
      have := Edited.change (gap ++ before) token new hend
      simpa only [byteSize_append, List.append_assoc, Nat.add_assoc] using this

/-- Edits at slices that come in order can be made. -/
theorem exists_edited {edits : List Edit} {rest : Text} (done : Text)
    (hslice : ∀ e ∈ edits, ∃ old, slice? e.start e.stop (done ++ rest) = some old)
    (hstart : ∀ e ∈ edits, byteSize done ≤ e.start)
    (hsorted : edits.Pairwise fun e e' => e.stop ≤ e'.start) :
    ∃ out, Edited (byteSize done) edits rest out := by
  induction edits generalizing done rest with
  | nil => exact ⟨rest, .keep _ rest⟩
  | cons e edits ih =>
    obtain ⟨hfirst, hsorted⟩ := List.pairwise_cons.1 hsorted
    obtain ⟨old, hold⟩ := hslice e List.mem_cons_self
    obtain ⟨before, after, ht, hb, ho⟩ := slice?_eq_some_iff.1 hold
    have hle := hstart e List.mem_cons_self
    obtain ⟨gap, rfl, hrest⟩ : ∃ gap, before = done ++ gap ∧ rest = gap ++ (old ++ after) := by
      rw [List.append_assoc before] at ht
      exact exists_between_of_append_eq ht (by omega)
    rw [byteSize_append] at hb
    obtain ⟨out, hout⟩ : ∃ out, Edited (byteSize (done ++ gap ++ old)) edits after out := by
      refine ih (done ++ gap ++ old) (fun e' he' => ?_) (fun e' he' => ?_) hsorted
      · rw [← ht]
        exact hslice e' (List.mem_cons_of_mem _ he')
      · have := hfirst e' he'
        simp only [byteSize_append]
        omega
    have hspan : e = ⟨byteSize done + byteSize gap, byteSize done + byteSize gap + byteSize old,
        e.new⟩ := by rw [hb, ho]
    refine ⟨gap ++ e.new ++ out, ?_⟩
    rw [hspan, hrest, ← List.append_assoc]
    exact .change gap old e.new (by simpa only [byteSize_append] using hout)

end StyleAssets.Text
