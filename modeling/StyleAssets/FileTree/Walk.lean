import StyleAssets.FileTree.Lookup

/-!
# Finding stylesheets

* `FileTree.files` — the files below a directory that are not hidden; links are not followed there.
* `Disk.stylesheets` — the stylesheets that some paths name: a directory stands for the `.css`
  files below it in the order of their paths, anything else for itself.
-/

namespace StyleAssets

namespace FileTree

/-- Names that start with `.` are hidden, if they are text at all. -/
def isHidden (name : Name) : Bool :=
  name.head? == some Path.dot && (Utf8.decode? name).isSome

private theorem countP_lt {α : Type} {p q : α → Bool} {a : α} :
    ∀ {l : List α}, (∀ x, p x = true → q x = true) → a ∈ l → q a = true → p a = false →
      l.countP p < l.countP q
  | x :: l, hpq, ha, hqa, hpa => by
    have hle : l.countP p ≤ l.countP q := List.countP_mono_left fun x _ => hpq x
    simp only [List.countP_cons]
    rcases List.mem_cons.1 ha with rfl | ha
    · simp only [hqa, hpa, if_true, Bool.false_eq_true, if_false]
      omega
    · have ih := countP_lt hpq ha hqa hpa
      by_cases hp : p x = true
      · simp only [hp, hpq x hp, if_true]
        omega
      · simp only [hp, Bool.false_eq_true, if_false]
        split <;> omega

/-- Less lies below an entry of a directory than below the directory. -/
theorem length_below_lt {t : FileTree} {place : Location} {name : Name}
    (h : name ∈ t.names place) :
    (t.below (place ++ [name])).length < (t.below place).length := by
  obtain ⟨entry, hm⟩ := mem_names.1 h
  simp only [below, List.length_filterMap_eq_countP]
  refine countP_lt ?_ hm ?_ ?_
  · rintro ⟨other, entry'⟩ hs
    simp only [Option.isSome_map] at hs ⊢
    obtain ⟨way, hw⟩ := Option.isSome_iff_exists.1 hs
    obtain ⟨rfl, -⟩ := way?_eq_some.1 hw
    exact Option.isSome_iff_exists.2 ⟨name :: way, way?_eq_some.2 ⟨by simp, by simp⟩⟩
  · simp only [Option.isSome_map]
    exact Option.isSome_iff_exists.2 ⟨[name], way?_eq_some.2 ⟨rfl, by simp⟩⟩
  · simp only [Option.isSome_map, Option.isSome_eq_false_iff, Option.isNone_iff_eq_none]
    cases hw : way? (place ++ [name]) (place ++ [name]) with
    | none => rfl
    | some way =>
      obtain ⟨he, hne⟩ := way?_eq_some.1 hw
      exact absurd (List.append_right_eq_self.1 he.symm) hne

/-- The files below a directory that are not hidden, by their paths from `p`, the path of the
directory. What lies in a directory is known only if its path is not too long. -/
def files (t : FileTree) (place : Location) (p : Path) : List Path :=
  if p.isTooLong then []
  else (t.names place).attach.flatMap fun ⟨name, _⟩ =>
    if isHidden name then []
    else match t.get? (place ++ [name]) with
      | some .directory => t.files (place ++ [name]) (p.join ⟨name⟩)
      | some (.file _) => [p.join ⟨name⟩]
      | _ => []
termination_by (t.below place).length
decreasing_by exact length_below_lt (by assumption)

end FileTree

namespace Disk

def stylesheetExtension : Name := Utf8.encode ['c', 's', 's']

/-- The path that the paths of what is found below a directory start with: the path that names the
directory, but if a link stands there, its name in the directory before it. -/
def walkedPath (d : Disk) (p : Path) : Path :=
  match d.findLink p, p.parent?, p.fileName? with
  | .ok (_, .link _), some parent, some name => parent.join ⟨name⟩
  | _, _, _ => p

/-- The stylesheets below a directory in the order of their paths. A removed directory is empty. -/
def stylesheetsBelow (d : Disk) (p : Path) : List Path :=
  match d.find p with
  | .ok (⟨place, 0⟩, .directory) =>
    let found := d.tree.files place (d.walkedPath p)
    (found.filter (·.extension? == some stylesheetExtension)).mergeSort Path.le
  | _ => []

def stylesheets (d : Disk) (paths : List Path) : List Path :=
  paths.flatMap fun p => if d.isDirectory p then d.stylesheetsBelow p else [p]

end Disk

end StyleAssets
