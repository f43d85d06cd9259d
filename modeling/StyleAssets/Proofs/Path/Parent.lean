import StyleAssets.Proofs.Path.Canonical

/-!
# Parents

The parent of a path is cut off its bytes, by the pieces that stand for components. What is left
has all components but the last.

* `Path.components_parent?` — **main result**.
* `Location.components_path` — the components of a location, as a path.
-/

namespace StyleAssets

namespace Path

variable {p q parent : Path} {pieces : List Name} {last : Name} {absolute : Bool}

/-! ## Pieces -/

/-- The components that the pieces of a path stand for. -/
def componentsOf (absolute : Bool) (pieces : List Name) : List Component :=
  if absolute then .root :: pieces.filterMap component?
  else if pieces.head? = some [dot] then .current :: pieces.filterMap component?
  else pieces.filterMap component?

theorem components_eq (p : Path) : p.components = componentsOf p.isAbsolute p.segments := rfl

/-- Only the first component may be the root or a `.`. -/
theorem isStep_of_mem_tail {c : Component} (h : c ∈ p.components.tail) : IsStep c := by
  rw [components_eq, componentsOf] at h
  split at h
  · exact isStep_of_mem_segments h
  · split at h
    · exact isStep_of_mem_segments h
    · exact isStep_of_mem_segments (List.mem_of_mem_tail h)

/-- A piece behind others stands for a component of its own. -/
theorem componentsOf_concat {c : Component} (h : component? last = some c) :
    componentsOf absolute (pieces ++ [last]) = componentsOf absolute pieces ++ [c] := by
  have hdot : last ≠ [dot] := by
    rintro rfl
    cases h
  have hhead : (pieces ++ [last]).head? = some [dot] ↔ pieces.head? = some [dot] := by
    cases pieces <;> simp [hdot]
  rw [componentsOf, componentsOf, List.filterMap_append, List.filterMap_cons, h,
    List.filterMap_nil]
  simp only [hhead]
  split
  · rfl
  · split <;> rfl

/-- Pieces that stand for nothing do not count behind one that stands for a component. -/
theorem componentsOf_append {more : List Name} (hne : pieces ≠ [])
    (h : ∀ piece ∈ more, component? piece = none) :
    componentsOf absolute (pieces ++ more) = componentsOf absolute pieces := by
  obtain ⟨first, pieces, rfl⟩ := List.exists_cons_of_ne_nil hne
  rw [componentsOf, List.filterMap_append, List.filterMap_eq_nil_iff.2 h, List.append_nil]
  rfl

theorem isAbsolute_iff_segments :
    p.isAbsolute = true ↔ ∃ next rest, p.segments = [] :: next :: rest := by
  obtain ⟨bytes⟩ := p
  cases bytes with
  | nil => simp [isAbsolute, segments]
  | cons b bytes =>
    obtain ⟨next, rest, hrest⟩ := List.exists_cons_of_ne_nil (List.splitOn_ne_nil separator bytes)
    rw [segments, List.splitOn_cons_eq_if_modifyHead, hrest]
    by_cases hb : b = separator
    · simp [isAbsolute, hb]
    · simp [isAbsolute, hb]

theorem steps_eq_filter (p : Path) :
    p.segments.filterMap component? =
      p.components.filter fun c => decide (c ≠ .root ∧ c ≠ .current) := by
  have hsteps : (p.segments.filterMap component?).filter
      (fun c => decide (c ≠ .root ∧ c ≠ .current)) = p.segments.filterMap component? := by
    refine List.filter_eq_self.2 fun c hc => ?_
    have hstep := isStep_of_mem_segments hc
    cases c <;> first | rfl | cases hstep
  rw [components_eq, componentsOf]
  split
  · rw [List.filter_cons_of_neg (by simp), hsteps]
  · split
    · rw [List.filter_cons_of_neg (by simp), hsteps]
    · exact hsteps.symm

theorem isAbsolute_iff_components : p.isAbsolute = true ↔ p.components.head? = some .root := by
  rw [components_eq, componentsOf]
  cases p.isAbsolute with
  | true => simp
  | false =>
    simp only [Bool.false_eq_true, if_false, false_iff]
    split
    · simp
    · intro hhead
      exact isStep_of_mem_segments (List.mem_of_head? hhead)

/-- Only the empty path has no components. -/
theorem bytes_of_components_nil (h : p.components = []) : p.bytes = [] := by
  rw [components_eq, componentsOf] at h
  obtain ⟨bytes⟩ := p
  cases bytes with
  | nil => rfl
  | cons b bytes =>
    split at h
    · cases h
    · rename_i habsolute
      split at h
      · cases h
      · rename_i hdot
        obtain ⟨first, rest, hrest⟩ :=
          List.exists_cons_of_ne_nil (List.splitOn_ne_nil separator bytes)
        have hb : ¬(b == separator) = true := by simpa [isAbsolute] using habsolute
        have hsegments : segments ⟨b :: bytes⟩ = (b :: first) :: rest := by
          rw [segments, List.splitOn_cons_eq_if_modifyHead, if_neg hb, hrest]
          rfl
        rw [hsegments] at h hdot
        have hnone := List.filterMap_eq_nil_iff.1 h _ List.mem_cons_self
        rw [component?, if_neg (by simpa using hdot)] at hnone
        split at hnone <;> cases hnone

/-- The path that is written from pieces has these pieces. -/
theorem segments_intercalate (hne : pieces ≠ []) (h : ∀ piece ∈ pieces, separator ∉ piece) :
    segments ⟨[separator].intercalate pieces⟩ = pieces :=
  List.splitOn_intercalate separator h hne

/-! ## Pieces that count -/

/-- What is left of some pieces without those at the end that stand for nothing. -/
inductive Counted (p : Path) (pieces : List Name) : List Name → Prop
  | nothing (h : componentsOf p.isAbsolute pieces = if p.isAbsolute then [.root] else []) :
      Counted p pieces []
  | current (h : componentsOf p.isAbsolute pieces = [.current]) : Counted p pieces [[dot]]
  | pieces (init : List Name) (last : Name) (c : Component) (hlast : component? last = some c)
      (hfront : init ++ [last] <+: pieces)
      (h : componentsOf p.isAbsolute pieces = componentsOf p.isAbsolute (init ++ [last])) :
      Counted p pieces (init ++ [last])

theorem component?_eq_none_iff {piece : Name} :
    component? piece = none ↔ (piece == [] || piece == [dot]) = true := by
  unfold component?
  split
  · simpa using ‹_›
  · rename_i hname
    have hcount : (piece == [] || piece == [dot]) = false := by simpa using hname
    rw [hcount]
    split <;> simp

theorem counted_significant (p : Path) (pieces : List Name) :
    Counted p pieces (p.significant pieces) := by
  obtain ⟨kept, hkept⟩ : ∃ kept, kept =
      (pieces.reverse.dropWhile fun piece => piece == [] || piece == [dot]).reverse := ⟨_, rfl⟩
  obtain ⟨blank, hblank⟩ : ∃ blank, blank =
      (pieces.reverse.takeWhile fun piece => piece == [] || piece == [dot]).reverse := ⟨_, rfl⟩
  have hsplit : kept ++ blank = pieces := by
    rw [hkept, hblank, ← List.reverse_append, List.takeWhile_append_dropWhile,
      List.reverse_reverse]
  have hnone : ∀ piece ∈ blank, component? piece = none := by
    intro piece hpiece
    rw [hblank, List.mem_reverse] at hpiece
    exact component?_eq_none_iff.2
      (List.mem_takeWhile_imp (p := fun piece : Name => piece == [] || piece == [dot]) hpiece)
  unfold significant
  simp only [← hkept]
  obtain rfl | ⟨init, last, hconcat⟩ := kept.eq_nil_or_concat
  · obtain rfl : blank = pieces := hsplit
    have hsteps : blank.filterMap component? = [] := List.filterMap_eq_nil_iff.2 hnone
    simp only
    split
    · rename_i hcurrent
      rw [Bool.and_eq_true, Bool.not_eq_true', beq_iff_eq] at hcurrent
      refine .current ?_
      rw [componentsOf, hcurrent.1, hcurrent.2, hsteps]
      rfl
    · rename_i hother
      refine .nothing ?_
      rw [componentsOf, hsteps]
      cases habsolute : p.isAbsolute with
      | true => rfl
      | false =>
        rw [habsolute] at hother
        simpa using hother
  · rw [List.concat_eq_append] at hconcat
    subst hconcat
    have hlast : (last == [] || last == [dot]) = false := by
      have hhead := congrArg List.reverse hkept
      rw [List.reverse_reverse, List.reverse_concat] at hhead
      have hstop := List.head?_dropWhile_not (fun piece : Name => piece == [] || piece == [dot])
        pieces.reverse
      rw [← hhead] at hstop
      simpa using hstop
    obtain ⟨c, hc⟩ : ∃ c, component? last = some c := by
      refine Option.ne_none_iff_exists'.1 fun hnone => ?_
      rw [component?_eq_none_iff, hlast] at hnone
      cases hnone
    have hcounted : Counted p pieces (init ++ [last]) := by
      refine .pieces init last c hc ⟨blank, hsplit⟩ ?_
      rw [← hsplit, componentsOf_append (by simp) hnone]
    cases init <;> exact hcounted

/-! ## The parent -/

/-- A path that starts where `p` starts, written from pieces. -/
def writtenFrom (p : Path) : List Name → Path
  | [] => ⟨if p.isAbsolute then [separator] else []⟩
  | pieces => ⟨[separator].intercalate pieces⟩

theorem parent?_eq (p : Path) :
    p.parent? = if p.significant p.segments = [] then none
      else some (p.writtenFrom (p.significant (p.significant p.segments).dropLast)) := by
  rw [parent?]
  split
  · rw [if_pos ‹_›]
  · rename_i hkept
    rw [if_neg hkept]
    split
    · rename_i hrest
      rw [hrest]
      rfl
    · rename_i hrest
      obtain ⟨first, more, heq⟩ := List.exists_cons_of_ne_nil hrest
      rw [heq]
      rfl

/-- What is written from the pieces that count has the components of all pieces. -/
theorem components_writtenFrom {kept : List Name} (h : Counted p pieces kept)
    (hfront : pieces <+: p.segments) :
    (p.writtenFrom kept).components = componentsOf p.isAbsolute pieces := by
  cases h with
  | nothing h =>
    rw [h, writtenFrom]
    cases p.isAbsolute <;> rfl
  | current h =>
    rw [h]
    rfl
  | pieces init last c hlast hkept h =>
    have hne : init ++ [last] ≠ [] := by simp
    have hwritten : p.writtenFrom (init ++ [last]) =
        ⟨[separator].intercalate (init ++ [last])⟩ := by
      cases init <;> rfl
    have hfront := hkept.trans hfront
    have hsegments : (p.writtenFrom (init ++ [last])).segments = init ++ [last] := by
      rw [hwritten]
      exact segments_intercalate hne
        fun piece hpiece => not_mem_of_mem_splitOn (hfront.subset hpiece)
    have habsolute : (p.writtenFrom (init ++ [last])).isAbsolute = p.isAbsolute := by
      obtain ⟨more, hmore⟩ := hfront
      rw [Bool.eq_iff_iff, isAbsolute_iff_segments, isAbsolute_iff_segments, hsegments, ← hmore]
      constructor
      · rintro ⟨next, rest, heq⟩
        exact ⟨next, rest ++ more, by rw [heq]; rfl⟩
      · rintro ⟨next, rest, heq⟩
        cases init with
        | nil =>
          obtain ⟨rfl, -⟩ := List.cons.inj heq
          cases hlast
        | cons first init =>
          obtain ⟨rfl, -⟩ := List.cons.inj heq
          cases init <;> exact ⟨_, _, rfl⟩
    rw [h, components_eq, habsolute, hsegments]

/-- **The parent of a path has all its components but the last.** -/
theorem components_parent? (h : p.parent? = some parent) :
    ∃ last, p.components = parent.components ++ [last] := by
  have hcounted := counted_significant p p.segments
  rw [parent?_eq] at h
  split at h
  · cases h
  · rename_i hkept
    cases h
    generalize p.significant p.segments = kept at hkept hcounted
    cases hcounted with
    | nothing => exact absurd rfl hkept
    | current hcurrent =>
      refine ⟨.current, ?_⟩
      have hnone : p.significant [] = [] := by simp [significant]
      have habsolute : p.isAbsolute = false := by
        cases habsolute : p.isAbsolute with
        | false => rfl
        | true =>
          rw [habsolute] at hcurrent
          cases hcurrent
      rw [components_eq, hcurrent, List.dropLast_singleton, hnone, writtenFrom, habsolute]
      rfl
    | pieces init last c hlast hfront hcomponents =>
      refine ⟨c, ?_⟩
      rw [List.dropLast_concat, components_writtenFrom (counted_significant p init)
        ((List.prefix_append init [last]).trans hfront), components_eq, hcomponents,
        componentsOf_concat hlast]

end Path

namespace Location

variable {place : Location} {name : Name}

theorem components_path (h : ∀ name ∈ place, Path.IsStep (.normal name)) :
    (path place).components = .root :: place.map .normal := by
  refine Path.components_ofComponents ⟨place.map .normal, fun c hc => ?_, .inr rfl⟩
  obtain ⟨name, hname, rfl⟩ := List.mem_map.1 hc
  exact h name hname

end Location

end StyleAssets
