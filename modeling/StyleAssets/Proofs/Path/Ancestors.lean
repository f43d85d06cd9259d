import StyleAssets.Proofs.Path.Join
import StyleAssets.Proofs.Path.Parent

/-!
# The ancestors of a location

The path of a location is written in one way, so its ancestors are too: they are the paths of the
directories on the way down to it, from the last to the first.

* `Path.isAbsolute_of_mem_ancestors` — the ancestors of an absolute path are absolute.
* `Location.path_concat` — the path of a location is that of its directory, joined with its name.
* `Location.ancestors_path` — **main result**; `Location.parent?_path` is its step.
-/

namespace StyleAssets

namespace Path

variable {p parent : Path}

/-- The parent of an absolute path is absolute. -/
theorem isAbsolute_of_parent? (hp : p.isAbsolute = true) (h : p.parent? = some parent) :
    parent.isAbsolute = true := by
  rw [parent?_eq] at h
  split at h
  · cases h
  · cases h
    have hfront : (p.significant p.segments).dropLast <+: p.segments := by
      have hcounted := counted_significant p p.segments
      generalize p.significant p.segments = kept at hcounted
      cases hcounted with
      | nothing => exact List.nil_prefix
      | current => exact List.nil_prefix
      | pieces init last _ _ hkept =>
        rw [List.dropLast_concat]
        exact (List.prefix_append init [last]).trans hkept
    rw [isAbsolute_iff_components, components_writtenFrom (counted_significant p _) hfront, hp]
    rfl

theorem isAbsolute_of_mem_ancestors {p q : Path} (hp : p.isAbsolute = true)
    (h : q ∈ p.ancestors) : q.isAbsolute = true := by
  rw [ancestors] at h
  split at h
  · rename_i _ hparent
    obtain rfl | h := List.mem_cons.1 h
    · exact hp
    · split at h
      · exact isAbsolute_of_mem_ancestors (isAbsolute_of_parent? hp hparent) h
      · cases h
  · rw [List.mem_singleton.1 h]
    exact hp
termination_by p.bytes.length

/-- Nothing is dropped behind a piece that counts. -/
theorem significant_concat {c : Component} {last : Name} (p : Path) (init : List Name)
    (h : component? last = some c) : p.significant (init ++ [last]) = init ++ [last] := by
  have hlast : ¬(last == [] || last == [dot]) = true := by
    rw [← component?_eq_none_iff, h]
    nofun
  have hkept : ((init ++ [last]).reverse.dropWhile
      fun piece => piece == [] || piece == [dot]).reverse = init ++ [last] := by
    rw [List.reverse_concat, List.dropWhile_cons, if_neg hlast, ← List.reverse_concat,
      List.reverse_reverse]
  unfold significant
  simp only [hkept]
  cases init <;> rfl

end Path

namespace Location

variable {place : Location} {name : Name}

/-- The bytes of a location other than the root: a separator before each name. -/
theorem bytes_path (h : place ≠ []) :
    (path place).bytes = place.flatMap (Path.separator :: ·) := by
  have hwritten : ∀ first rest, Path.separator :: [Path.separator].intercalate (first :: rest) =
      (first :: rest).flatMap (Path.separator :: ·) := by
    intro first rest
    induction rest generalizing first with
    | nil => simp [List.intercalate]
    | cons second rest ih =>
      rw [List.flatMap_cons, ← ih, List.intercalate_cons_cons]
      simp
  obtain ⟨first, rest, rfl⟩ := List.exists_cons_of_ne_nil h
  rw [← hwritten]
  simp [path, Path.ofComponents, Component.bytes, Function.comp_def]

theorem bytes_path_concat (place : Location) (name : Name) :
    (path (place ++ [name])).bytes =
      place.flatMap (Path.separator :: ·) ++ Path.separator :: name := by
  rw [bytes_path (by simp), List.flatMap_append, List.flatMap_singleton]

/-- The path of a location is that of its directory, joined with its name. -/
theorem path_concat (hplace : ∀ name ∈ place, Path.IsStep (.normal name))
    (hname : Path.IsStep (.normal name)) :
    path (place ++ [name]) = (path place).join ⟨name⟩ := by
  have hwritten := congrArg Path.mk (bytes_path_concat place name)
  rw [Path.join, Path.isAbsolute_name hname.2.2.2, if_neg Bool.false_ne_true]
  obtain rfl | ⟨init, last, rfl⟩ := place.eq_nil_or_concat
  · exact hwritten
  · rw [List.concat_eq_append] at hplace hwritten ⊢
    obtain ⟨hempty, -, -, hplain⟩ := hplace last (by simp)
    have hend : ¬((path (init ++ [last])).bytes = [] ∨
        (path (init ++ [last])).bytes.getLast? = some Path.separator) := by
      have hasks : Path.asksForDirectory
          ⟨init.flatMap (Path.separator :: ·) ++ [Path.separator] ++ last⟩ = false :=
        Path.asksForDirectory_append_name hempty hplain
      rw [bytes_path_concat]
      simpa [Path.asksForDirectory] using hasks
    rw [if_neg hend, bytes_path (by simp)]
    exact hwritten

/-- The parent of a location is the location of the directory that holds it. -/
theorem parent?_path (h : ∀ step ∈ place ++ [name], Path.IsStep (.normal step)) :
    (path (place ++ [name])).parent? = some (path place) := by
  have hpieces : ∀ other : Location, other ≠ [] →
      path other = ⟨[Path.separator].intercalate ([] :: other)⟩ := by
    intro other hne
    rw [List.intercalate_cons_of_ne_nil hne]
    simp [path, Path.ofComponents, Component.bytes, Function.comp_def]
  have hsegments : (path (place ++ [name])).segments = ([] :: place) ++ [name] := by
    rw [hpieces _ (by simp)]
    refine Path.segments_intercalate (by simp) fun piece hpiece => ?_
    obtain rfl | hpiece := List.mem_cons.1 hpiece
    · exact List.not_mem_nil
    · exact (h piece hpiece).2.2.2
  have hlast : Path.component? name = some (.normal name) :=
    Path.component?_bytes (h name (by simp))
  rw [Path.parent?_eq, hsegments, Path.significant_concat _ _ hlast, if_neg (by simp),
    List.dropLast_concat]
  refine congrArg some ?_
  obtain rfl | ⟨init, last, rfl⟩ := place.eq_nil_or_concat
  · rfl
  · rw [List.concat_eq_append] at h ⊢
    have hlast : Path.component? last = some (.normal last) :=
      Path.component?_bytes (h last (by simp))
    rw [← List.cons_append, Path.significant_concat _ _ hlast, List.cons_append,
      hpieces (init ++ [last]) (by simp)]
    rfl

/-- **The ancestors of a location** are the paths of the directories on the way to it, from the last
to the first. -/
theorem ancestors_path (h : ∀ name ∈ place, Path.IsStep (.normal name)) :
    (path place).ancestors = (place.inits.map path).reverse := by
  induction place using List.reverseRecOn with
  | nil =>
    have hnone : (path []).parent? = none := by decide +kernel
    rw [Path.ancestors, hnone]
    rfl
  | append_singleton place name ih =>
    have hplace : ∀ step ∈ place, Path.IsStep (.normal step) :=
      fun step hstep => h step (List.mem_append_left _ hstep)
    have hname := h name (by simp)
    have hshorter : (path place).bytes.length < (path (place ++ [name])).bytes.length := by
      obtain ⟨front, hjoin, -, hfront⟩ :=
        Path.exists_front_join (path place) (Path.isAbsolute_name hname.2.2.2)
      have hlength : (path place).bytes.length ≤ front.length := by
        obtain rfl | ⟨-, rfl⟩ := hfront <;> simp
      have hpos := List.length_pos_of_ne_nil hname.1
      rw [path_concat hplace hname, hjoin, List.length_append]
      exact Nat.lt_of_le_of_lt hlength (Nat.lt_add_of_pos_right hpos)
    rw [Path.ancestors, parent?_path h]
    simp only [hshorter, if_true]
    rw [ih hplace]
    simp [List.inits_append]

end Location

end StyleAssets
