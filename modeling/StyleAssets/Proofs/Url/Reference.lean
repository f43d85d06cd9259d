import Mathlib.Data.List.Basic
import Mathlib.Data.List.TakeWhile
import StyleAssets.Url.Reference

/-!
# Tokens of values

* `UrlReference.token?_spec` — a token starts the text, holds something and ends at the first `)`.
* `UrlReference.value_of_extract` — the token that is found lies in the value.
-/

namespace StyleAssets.UrlReference

theorem token?_spec {t inner after : Text} (h : token? t = some (inner, after)) :
    t = opening ++ inner ++ [')'] ++ after ∧ inner ≠ [] ∧ ')' ∉ inner := by
  unfold token? at h
  cases hrest : opening.isPrefixOf? t with
  | none => simp [hrest] at h
  | some rest =>
    have ht := List.isPrefixOf?_eq_some_iff_append_eq.1 hrest
    simp only [hrest, Option.bind_eq_bind, Option.bind_some] at h
    split at h
    · rename_i c more close after' hinner hafter
      cases h
      have hclose := List.head?_dropWhile_not (· != ')') rest
      rw [hafter] at hclose
      have hclose : close = ')' := by simpa using hclose
      refine ⟨?_, List.cons_ne_nil _ _, fun hmem => ?_⟩
      · rw [← ht, ← List.takeWhile_append_dropWhile (p := (· != ')')) (l := rest), hinner, hafter,
          hclose]
        simp
      · rw [← hinner] at hmem
        simpa using List.mem_takeWhile_imp hmem
    · cases h

theorem value_of_first? {t : Text} {r : UrlReference} (h : first? t = some r) : r.value = t := by
  induction t generalizing r with
  | nil => cases h
  | cons c t ih =>
    rw [first?] at h
    split at h
    · rename_i inner after htoken
      cases h
      exact (token?_spec htoken).1.symm
    · obtain ⟨r', hr', rfl⟩ := Option.map_eq_some_iff.1 h
      exact congrArg (c :: ·) (ih hr')

/-- **The token lies in the value.** -/
theorem value_of_extract {value : Text} {r : UrlReference} (h : extract value = .ok (some r)) :
    r.value = value := by
  unfold extract at h
  split at h
  · cases h
  · split at h
    · cases h
    · rename_i hfirst
      split at h
      · cases h
      · cases h
        exact value_of_first? hfirst

end StyleAssets.UrlReference
