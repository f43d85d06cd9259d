import Mathlib.Data.List.TakeWhile
import StyleAssets.Asset.Output

/-!
# Names in urls

* `Url.splitExtension?_eq_some_iff` — a text splits at its final extension, and nowhere else.
* `Url.isStem_dropExtension` — dropping an extension leaves the stem.
* `OutputAsset.exists_lead` — the base name of a url with an extension is what follows the last
  `/`.
-/

namespace StyleAssets

namespace Url

variable {t stem ending : Text}

/-- One to five letters or digits. -/
def IsExtension (ending : Text) : Prop :=
  (1 ≤ ending.length ∧ ending.length ≤ 5) ∧ ∀ c ∈ ending, c.isAlphanum = true

/-- What remains of a text without a final `.` and an extension, if it has one. -/
def IsStem (t stem : Text) : Prop :=
  (∃ ending, IsExtension ending ∧ t = stem ++ '.' :: ending) ∨
    stem = t ∧ ∀ stem ending, IsExtension ending → t ≠ stem ++ '.' :: ending

theorem splitExtension?_eq_some_iff :
    splitExtension? t = some (stem, ending) ↔ t = stem ++ '.' :: ending ∧ IsExtension ending := by
  unfold splitExtension?
  simp only
  constructor
  · intro h
    split at h
    · rename_i rest hdrop
      split at h
      · rename_i hlength
        cases h
        obtain ⟨back, hback⟩ := List.takeWhile_prefix (l := t.reverse) Char.isAlphanum
        have hall : ∀ c ∈ t.reverse.takeWhile Char.isAlphanum, c.isAlphanum = true :=
          fun c hc => List.mem_takeWhile_imp hc
        generalize t.reverse.takeWhile Char.isAlphanum = front at hdrop hlength hback hall
        rw [← hback, List.drop_left] at hdrop
        refine ⟨?_, by simpa using hlength, fun c hc => hall c (List.mem_reverse.1 hc)⟩
        rw [← List.reverse_reverse t, ← hback, hdrop]
        simp
      · cases h
    · cases h
  · rintro ⟨rfl, hlength, hall⟩
    have hending : (stem ++ '.' :: ending).reverse.takeWhile Char.isAlphanum = ending.reverse := by
      have hall' : ∀ c ∈ ending.reverse, c.isAlphanum = true :=
        fun c hc => hall c (List.mem_reverse.1 hc)
      simp only [List.reverse_append, List.reverse_cons, List.append_assoc]
      rw [List.takeWhile_append_of_pos hall']
      simp
    rw [hending]
    simp [hlength]

theorem isStem_dropExtension (t : Text) : IsStem t (dropExtension t) := by
  unfold dropExtension
  split
  · rename_i stem ending hsplit
    obtain ⟨htext, hending⟩ := splitExtension?_eq_some_iff.1 hsplit
    exact .inl ⟨ending, hending, htext⟩
  · rename_i hnone
    refine .inr ⟨rfl, fun stem ending hending htext => ?_⟩
    exact Option.some_ne_none _
      ((splitExtension?_eq_some_iff.2 ⟨htext, hending⟩).symm.trans hnone)

theorem dropExtension_subset (t : Text) : dropExtension t ⊆ t := by
  obtain ⟨ending, -, htext⟩ | ⟨hsame, -⟩ := isStem_dropExtension t
  · intro c hc
    rw [htext]
    exact List.mem_append_left _ hc
  · rw [hsame]
    exact List.Subset.refl t

/-- A text with a file extension ends in a letter or a digit. -/
theorem getLast?_of_hasExtension (h : hasExtension t = true) :
    ∃ c, t.getLast? = some c ∧ c.isAlphanum = true := by
  obtain ⟨⟨stem, ending⟩, hsplit⟩ := Option.isSome_iff_exists.1 h
  obtain ⟨rfl, hlength, hall⟩ := splitExtension?_eq_some_iff.1 hsplit
  have hne : ending ≠ [] := by
    rintro rfl
    simp at hlength
  refine ⟨ending.getLast hne, ?_, hall _ (List.getLast_mem hne)⟩
  rw [List.getLast?_append, List.getLast?_cons, List.getLast?_eq_some_getLast hne]
  rfl

theorem hasExtension_of_kind (h : kind t = .localRelative) : hasExtension t = true := by
  unfold kind at h
  split at h
  · cases h
  · rename_i hextension
    simpa using hextension

end Url

namespace OutputAsset

variable {url : Text}

theorem baseName_plain (url : Text) : '/' ∉ baseName url := by
  intro hmem
  rw [baseName, List.mem_reverse] at hmem
  simpa using List.mem_takeWhile_imp hmem

/-- **The base name of a url with an extension is what follows the last `/`**, or all of it. -/
theorem exists_lead (h : Url.hasExtension url = true) :
    ∃ lead, url = lead ++ baseName url ∧ (lead = [] ∨ lead.getLast? = some '/') := by
  obtain ⟨c, hlast, hc⟩ := Url.getLast?_of_hasExtension h
  obtain ⟨init, rfl⟩ := List.getLast?_eq_some_iff.1 hlast
  have hne : (c == '/') = false := by
    refine Bool.eq_false_iff.2 fun heq => ?_
    rw [eq_of_beq heq] at hc
    cases hc
  have htrimmed : (init ++ [c]).reverse.dropWhile (· == '/') = (init ++ [c]).reverse := by
    rw [List.reverse_append, List.reverse_singleton, List.singleton_append,
      List.dropWhile_cons_of_neg (by simp [hne])]
  have hname : baseName (init ++ [c]) = ((init ++ [c]).reverse.takeWhile (· != '/')).reverse := by
    rw [baseName, htrimmed]
  refine ⟨((init ++ [c]).reverse.dropWhile (· != '/')).reverse, ?_, ?_⟩
  · rw [hname, ← List.reverse_append, List.takeWhile_append_dropWhile, List.reverse_reverse]
  · cases hdrop : (init ++ [c]).reverse.dropWhile (· != '/') with
    | nil => exact .inl rfl
    | cons s rest =>
      have hs := List.head?_dropWhile_not (· != '/') (init ++ [c]).reverse
      rw [hdrop] at hs
      have hslash : s = '/' := by simpa using hs
      right
      rw [List.reverse_cons, List.getLast?_concat, hslash]

theorem baseName_subset (url : Text) : baseName url ⊆ url := by
  intro c hc
  rw [baseName, List.mem_reverse] at hc
  exact List.mem_reverse.1
    ((List.dropWhile_sublist _).subset ((List.takeWhile_sublist _).subset hc))

/-- The name of a file ends as its url does, if that ends in a letter or a digit. -/
theorem getLast?_baseName {url : Text} {c : Char} (h : url.getLast? = some c)
    (hc : c.isAlphanum = true) : (baseName url).getLast? = some c := by
  obtain ⟨init, rfl⟩ := List.getLast?_eq_some_iff.1 h
  have hslash : c ≠ '/' := by
    rintro rfl
    cases hc
  rw [baseName, List.reverse_append, List.reverse_singleton, List.singleton_append,
    List.dropWhile_cons_of_neg (by simp [hslash]), List.takeWhile_cons_of_pos (by simp [hslash]),
    List.reverse_cons, List.getLast?_append]
  rfl

/-- So does the name of a copy. -/
theorem getLast?_name (cwd : Option Path) (sheet : Path) {url : Text} {c : Char}
    (h : url.getLast? = some c) (hc : c.isAlphanum = true) :
    (derive cwd sheet url).name.getLast? = some c := by
  rw [derive, List.getLast?_append, getLast?_baseName h hc]
  rfl

end OutputAsset

end StyleAssets
