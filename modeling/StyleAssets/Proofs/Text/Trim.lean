import Mathlib.Data.List.DropRight
import StyleAssets.Text.Basic

/-!
# Trimmed text

* `Text.Trimmed` — no blank at either end; `trimmed_trim` says that trimming gets there.
* `exists_trail` — what trimming takes away stands at the two ends.
* `trim_around` — what has no blanks at its ends keeps trimming apart on both sides of it.
-/

namespace StyleAssets

/-! ## Dropping from the end -/

section

variable {α : Type} {p : α → Bool} {xs ys : List α}

theorem rdropWhile_append_of_forall (h : ∀ y ∈ ys, p y = true) :
    (xs ++ ys).rdropWhile p = xs.rdropWhile p := by
  have hnil : (ys.reverse.dropWhile p).isEmpty = true :=
    List.isEmpty_iff.2 (List.dropWhile_eq_nil_iff.2 fun y hy => h y (List.mem_reverse.1 hy))
  rw [List.rdropWhile, List.reverse_append, List.dropWhile_append, if_pos hnil]
  rfl

theorem rdropWhile_append_of_exists (h : ∃ y ∈ ys, p y = false) :
    (xs ++ ys).rdropWhile p = xs ++ ys.rdropWhile p := by
  obtain ⟨y, hy, hp⟩ := h
  have hne : ¬(ys.reverse.dropWhile p).isEmpty = true := by
    intro hnil
    have := List.dropWhile_eq_nil_iff.1 (List.isEmpty_iff.1 hnil) y (List.mem_reverse.2 hy)
    rw [hp] at this
    cases this
  rw [List.rdropWhile, List.reverse_append, List.dropWhile_append, if_neg hne, List.reverse_append,
    List.reverse_reverse]
  rfl

theorem rdropWhile_append_of_last (h : ∀ x ∈ xs.getLast?, p x = false) :
    (xs ++ ys).rdropWhile p = xs ++ ys.rdropWhile p := by
  by_cases hys : ∃ y ∈ ys, p y = false
  · exact rdropWhile_append_of_exists hys
  · have hall : ∀ y ∈ ys, p y = true := by
      intro y hy
      by_contra hp
      exact hys ⟨y, hy, Bool.eq_false_iff.2 hp⟩
    have hxs : xs.rdropWhile p = xs := List.rdropWhile_eq_self_iff.2 fun hne => by
      simp [h _ (List.getLast?_eq_some_getLast hne)]
    rw [rdropWhile_append_of_forall hall, hxs, List.rdropWhile_eq_nil_iff.2 hall, List.append_nil]

end

namespace Text

/-- No blank at either end. -/
structure Trimmed (t : Text) : Prop where
  head : ∀ c ∈ t.head?, isBlank c = false
  last : ∀ c ∈ t.getLast?, isBlank c = false

theorem trimEnd_prefix (t : Text) : trimEnd t <+: t := List.rdropWhile_prefix isBlank t

theorem head?_trimStart (t : Text) : ∀ c ∈ (trimStart t).head?, isBlank c = false := by
  intro c hc
  have h := List.head?_dropWhile_not isBlank t
  unfold trimStart at hc
  rw [Option.mem_def.1 hc] at h
  simpa using h

theorem getLast?_trimEnd (t : Text) : ∀ c ∈ (trimEnd t).getLast?, isBlank c = false := by
  intro c hc
  obtain ⟨hne, rfl⟩ := List.mem_getLast?_eq_getLast hc
  exact Bool.eq_false_iff.2 (List.rdropWhile_last_not isBlank t hne)

theorem trimmed_trim (t : Text) : Trimmed (trim t) := by
  refine ⟨fun c hc => ?_, getLast?_trimEnd _⟩
  obtain ⟨trail, htrail⟩ := trimEnd_prefix (trimStart t)
  refine head?_trimStart t c ?_
  unfold trim at hc
  cases h : trimEnd (trimStart t) with
  | nil => rw [h] at hc; cases hc
  | cons c' rest =>
    rw [h] at hc
    rw [← htrail, h]
    exact hc

theorem trimmed_singleton {c : Char} (h : isBlank c = false) : Trimmed [c] := by
  constructor
  · intro c' hc'
    cases hc'
    exact h
  · intro c' hc'
    cases hc'
    exact h

/-- A letter or a digit is no blank. -/
theorem isBlank_of_isAlphanum {c : Char} (h : c.isAlphanum = true) : isBlank c = false := by
  delta Char.isAlphanum Char.isAlpha Char.isUpper Char.isLower Char.isDigit at h
  simp only [Bool.or_eq_true, Bool.and_eq_true, decide_eq_true_eq, ge_iff_le,
    UInt32.le_iff_toNat_le, Char.reduceVal, UInt32.reduceToNat, Char.toNat_val] at h
  by_contra hblank
  simp only [isBlank, Bool.not_eq_false, Bool.or_eq_true, Bool.and_eq_true, decide_eq_true_eq,
    beq_iff_eq, ← Char.toNat_inj, Char.le_def, UInt32.le_iff_toNat_le, Char.reduceVal,
    UInt32.reduceToNat, Char.toNat_val, Char.reduceToNat] at hblank
  omega

theorem Trimmed.trim_eq {t : Text} (h : Trimmed t) : trim t = t := by
  have hstart : trimStart t = t := by
    cases t with
    | nil => rfl
    | cons c t => exact List.dropWhile_cons_of_neg (by simp [h.head c rfl])
  unfold trim
  rw [hstart]
  exact List.rdropWhile_eq_self_iff.2 fun hne =>
    by simp [h.last _ (List.getLast?_eq_some_getLast hne)]

/-- Trimming takes blanks away, at the two ends only. -/
theorem exists_trail (t : Text) : ∃ trail, t = t.takeWhile isBlank ++ trim t ++ trail ∧
    ∀ c ∈ trail, isBlank c = true := by
  refine ⟨((trimStart t).reverse.takeWhile isBlank).reverse, ?_, fun c hc => ?_⟩
  · have hback : trim t ++ ((trimStart t).reverse.takeWhile isBlank).reverse = trimStart t := by
      rw [trim, trimEnd, ← List.reverse_append, List.takeWhile_append_dropWhile,
        List.reverse_reverse]
    rw [List.append_assoc, hback]
    exact List.takeWhile_append_dropWhile.symm
  · exact List.mem_takeWhile_imp (List.mem_reverse.1 hc)

/-! ## Around what has no blanks at its ends -/

variable {x m y : Text}

theorem takeWhile_around (hm : Trimmed m) (hne : m ≠ []) :
    (x ++ m ++ y).takeWhile isBlank = x.takeWhile isBlank := by
  obtain ⟨c, rest, rfl⟩ := List.exists_cons_of_ne_nil hne
  have hc : isBlank c = false := hm.head c rfl
  rw [List.append_assoc, List.takeWhile_append]
  split
  · rename_i hall
    rw [List.cons_append, List.takeWhile_cons_of_neg (by simp [hc]), List.append_nil]
    exact ((List.takeWhile_sublist isBlank).eq_of_length hall).symm
  · rfl

theorem trim_around (hm : Trimmed m) (hne : m ≠ []) :
    trim (x ++ m ++ y) = trimStart x ++ m ++ trimEnd y := by
  have hstart : trimStart (x ++ m ++ y) = trimStart x ++ m ++ y := by
    have hall : (x ++ m ++ y).takeWhile isBlank ++ trimStart (x ++ m ++ y) =
        x.takeWhile isBlank ++ (trimStart x ++ m ++ y) := by
      rw [trimStart, List.takeWhile_append_dropWhile, ← List.append_assoc, ← List.append_assoc,
        trimStart, List.takeWhile_append_dropWhile]
    rw [takeWhile_around hm hne] at hall
    exact List.append_cancel_left hall
  rw [trim, hstart]
  refine rdropWhile_append_of_last fun c hc => hm.last c ?_
  rwa [List.getLast?_append_of_ne_nil _ hne] at hc

end Text

end StyleAssets
