import Mathlib.Data.List.Lex
import Mathlib.Data.List.Sort
import StyleAssets.Path.Basic

/-!
# The order of paths

Paths are compared component by component. That is a linear order up to sameness, so a list of
paths of which no two are the same is sorted in one way only.

* `Component.sortKey_injective`, `Path.le_iff` — the order is that of the keys of the components.
* `Path.Ascending` — a list of paths, each of which comes before all that follow it.
* `Path.ascending_mergeSort` — sorting makes paths ascend that are pairwise different.
* `Path.Ascending.eq` — **main result**: paths ascend in one order only.
-/

namespace StyleAssets

namespace Component

theorem sortKey_injective : Function.Injective sortKey := by
  intro c d h
  cases c <;> cases d <;> simp [sortKey] at h ⊢
  exact List.map_injective_iff.2 (fun _ _ => UInt8.toNat_inj.1) h

theorem before_iff {c d : Component} : c.before d = true ↔ c.sortKey < d.sortKey :=
  List.lex_eq_true_iff_lt

end Component

namespace Path

variable {p q r : Path} {paths paths' : List Path}

/-- What paths are ordered by. -/
def sortKey (p : Path) : List (List Nat) := p.components.map Component.sortKey

theorem lex_before_iff (cs ds : List Component) :
    List.lex cs ds Component.before = true ↔
      cs.map Component.sortKey < ds.map Component.sortKey := by
  induction cs generalizing ds with
  | nil => cases ds <;> simp [List.lex]
  | cons c cs ih =>
    cases ds with
    | nil => simp [List.lex]
    | cons d ds =>
      simp only [List.lex, Bool.or_eq_true, Bool.and_eq_true, beq_iff_eq, List.map_cons,
        List.cons_lt_cons_iff, Component.before_iff, ih, Component.sortKey_injective.eq_iff]

theorem le_iff : p.le q = true ↔ p.sortKey ≤ q.sortKey := by
  rw [le, Bool.not_eq_true', ← Bool.not_eq_true, lex_before_iff, not_lt]
  rfl

theorem same_iff_sortKey : p.Same q ↔ p.sortKey = q.sortKey :=
  (List.map_injective_iff.2 Component.sortKey_injective).eq_iff.symm

/-- Each path comes before all that follow it. -/
def Ascending (paths : List Path) : Prop :=
  paths.Pairwise fun p q => p.le q = true ∧ ¬p.Same q

theorem ascending_iff : Ascending paths ↔ paths.Pairwise fun p q => p.sortKey < q.sortKey := by
  refine List.Pairwise.iff fun p q => ?_
  rw [le_iff, same_iff_sortKey, lt_iff_le_and_ne]

/-- **Sorting makes paths ascend** of which no two are the same. -/
theorem ascending_mergeSort (h : paths.Pairwise fun p q => ¬p.Same q) :
    Ascending (paths.mergeSort le) := by
  have hsorted : (paths.mergeSort le).Pairwise fun p q => p.le q = true := by
    refine List.pairwise_mergeSort (fun p q r hpq hqr => ?_) (fun p q => ?_) paths
    · exact le_iff.2 ((le_iff.1 hpq).trans (le_iff.1 hqr))
    · rw [Bool.or_eq_true, le_iff, le_iff]
      exact le_total _ _
  refine hsorted.and (((List.mergeSort_perm paths le).pairwise_iff fun hne => ?_).2 h)
  exact fun hsame => hne hsame.symm

/-- **Paths ascend in one order only.** -/
theorem Ascending.eq (h : Ascending paths) (h' : Ascending paths')
    (hmem : ∀ p, p ∈ paths ↔ p ∈ paths') : paths = paths' := by
  rw [ascending_iff] at h h'
  have : Std.Antisymm fun p q : Path => p.sortKey < q.sortKey :=
    ⟨fun p q hpq hqp => absurd hpq hqp.not_gt⟩
  have : Std.Irrefl fun p q : Path => p.sortKey < q.sortKey := ⟨fun p => lt_irrefl p.sortKey⟩
  exact h.eq_of_mem_iff h' hmem

end Path

end StyleAssets
