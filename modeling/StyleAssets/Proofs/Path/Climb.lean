import StyleAssets.Proofs.Path.Resolve

/-!
# Relative paths without a working directory

A relative path climbs as many levels as its `..` outweigh the names before them. Its normal form
keeps a `..` for each of these levels, and behind them the names that no later `..` cancels. Where
the working directory is not known, resolving finds the names, but a `..` that was kept is taken for
a name by the next one: of the levels only the odd one is left.

* `Path.climb` — how far some steps lead above where they start; `Path.uncancelled` — the names that
  are left.
* `Path.foldl_advance_unanchored` — what is left of `..` and names after more steps.
* `Path.resolve_unanchored` — **main result**.
-/

namespace StyleAssets

/-- Is a component a name? -/
def Component.isName : Component → Bool
  | .normal _ => true
  | _ => false

namespace Path

variable {p : Path} {steps : List Component} {n : Nat}

/-! ## How far a path climbs -/

/-- By how much `..` outweighs the names in some steps. -/
def excess (steps : List Component) : Nat := steps.count .parent - steps.countP Component.isName

/-- How far some steps climb above where they start: as far as their beginnings do. -/
def climb (steps : List Component) : Nat := (steps.inits.map excess).foldr max 0

/-- The names in some steps that no later `..` cancels: what follows them does not climb. -/
def uncancelled : List Component → List Name
  | [] => []
  | .normal name :: rest => if climb rest = 0 then name :: uncancelled rest else uncancelled rest
  | _ :: rest => uncancelled rest

/-- The lexical normal form of a relative path: `..` for each level that it climbs, and the names
that are left. -/
def normalForm (steps : List Component) : List Component :=
  List.replicate (climb steps) .parent ++ (uncancelled steps).map .normal

theorem climb_le_iff : climb steps ≤ n ↔
    ∀ front, front <+: steps → front.count .parent ≤ front.countP Component.isName + n := by
  have hmax : ∀ depths : List Nat, depths.foldr max 0 ≤ n ↔ ∀ depth ∈ depths, depth ≤ n := by
    intro depths
    induction depths with
    | nil => simp
    | cons depth depths ih => simp [ih]
  simp only [climb, hmax, List.forall_mem_map, List.mem_inits, excess, Nat.sub_le_iff_le_add']

@[simp] theorem climb_nil : climb [] = 0 := rfl

theorem climb_cons_le_iff (c : Component) (steps : List Component) :
    climb (c :: steps) ≤ n ↔ ∀ front, front <+: steps →
      (c :: front).count .parent ≤ (c :: front).countP Component.isName + n := by
  rw [climb_le_iff]
  constructor
  · exact fun h front hfront => h _ (List.cons_prefix_cons.2 ⟨rfl, hfront⟩)
  · intro h front hfront
    obtain rfl | ⟨front, rfl, hrest⟩ := List.prefix_cons_iff.1 hfront
    · exact Nat.zero_le _
    · exact h front hrest

@[simp] theorem climb_parent (steps : List Component) :
    climb (.parent :: steps) = climb steps + 1 := by
  refine eq_of_forall_ge_iff fun n => ?_
  simp only [climb_cons_le_iff, List.count_cons_self, List.countP_cons, Component.isName]
  constructor
  · intro h
    have hone : 1 ≤ n := by simpa using h [] List.nil_prefix
    have hless : climb steps ≤ n - 1 := climb_le_iff.2 fun front hfront => by
      have hmore := h front hfront
      simp at hmore
      omega
    omega
  · intro h front hfront
    have hless := climb_le_iff.1 (Nat.le_refl (climb steps)) front hfront
    simp
    omega

@[simp] theorem climb_normal (name : Name) (steps : List Component) :
    climb (.normal name :: steps) = climb steps - 1 := by
  refine eq_of_forall_ge_iff fun n => ?_
  rw [climb_cons_le_iff, Nat.sub_le_iff_le_add, climb_le_iff]
  refine forall₂_congr fun front _ => ?_
  simp [List.countP_cons, Component.isName]
  omega

@[simp] theorem climb_current (steps : List Component) :
    climb (.current :: steps) = climb steps := by
  refine eq_of_forall_ge_iff fun n => ?_
  rw [climb_cons_le_iff, climb_le_iff]
  refine forall₂_congr fun front _ => ?_
  simp [Component.isName]

/-- A normal form climbs as far as its `..` say. -/
theorem climb_parents (levels : Nat) (names : List Name) :
    climb (List.replicate levels .parent ++ names.map .normal) = levels := by
  induction levels with
  | zero =>
    induction names with
    | nil => rfl
    | cons name names ih =>
      rw [List.replicate_zero, List.nil_append] at ih ⊢
      rw [List.map_cons, climb_normal, ih]
  | succ levels ih => rw [List.replicate_succ, List.cons_append, climb_parent, ih]

/-! ## What is left -/

/-- A `..` that finds no name takes back the `..` before it, if there is one. -/
theorem advance_parents (kept : Nat) :
    advance (List.replicate (kept % 2) .parent) .parent =
      List.replicate ((kept + 1) % 2) .parent := by
  obtain heven | hodd := Nat.mod_two_eq_zero_or_one kept
  · rw [heven, Nat.add_mod, heven]
    rfl
  · rw [hodd, Nat.add_mod, hodd]
    rfl

theorem advance_parent_name (front : List Component) (name : Name) :
    advance (front ++ [.normal name]) .parent = front := by
  simp [advance]

/-- **What is left after more steps**: they cancel names from the end, as many as they climb, and
from then on each level that they climb adds a `..` or takes one away. -/
theorem foldl_advance_unanchored (hroot : .root ∉ steps) (kept : Nat) (names : List Name) :
    steps.foldl advance (List.replicate (kept % 2) .parent ++ names.map .normal) =
      List.replicate ((kept + (climb steps - names.length)) % 2) .parent ++
        (names.take (names.length - climb steps) ++ uncancelled steps).map .normal := by
  induction steps generalizing kept names with
  | nil => simp [uncancelled]
  | cons c steps ih =>
    have hroot' : .root ∉ steps := fun hmem => hroot (List.mem_cons_of_mem _ hmem)
    rw [List.foldl_cons]
    cases c with
    | root => exact absurd List.mem_cons_self hroot
    | current => simpa [uncancelled, advance] using ih hroot' kept names
    | parent =>
      obtain rfl | ⟨init, last, rfl⟩ := names.eq_nil_or_concat
      · have hleft := ih hroot' (kept + 1) []
        rw [List.map_nil, List.append_nil] at hleft ⊢
        rw [advance_parents, hleft, climb_parent]
        simp only [List.length_nil, Nat.sub_zero, List.take_nil, uncancelled]
        congr 3
        omega
      · rw [List.concat_eq_append, List.map_append, List.map_singleton, ← List.append_assoc,
          advance_parent_name, ih hroot', climb_parent, List.length_append, List.length_singleton,
          Nat.add_sub_add_right, Nat.add_sub_add_right,
          List.take_append_of_le_length (Nat.sub_le _ _)]
        rfl
    | normal name =>
      have hpush : advance (List.replicate (kept % 2) .parent ++ names.map .normal) (.normal name) =
          List.replicate (kept % 2) .parent ++ (names ++ [name]).map .normal := by
        simp [advance]
      rw [hpush, ih hroot', climb_normal, uncancelled, List.length_append, List.length_singleton]
      have hlevels : climb steps - (names.length + 1) = climb steps - 1 - names.length := by omega
      rw [hlevels]
      congr 2
      split
      · rename_i hlevel
        rw [hlevel, Nat.sub_zero, Nat.zero_sub, Nat.sub_zero, List.take_length,
          List.take_of_length_le (by simp), List.append_assoc]
        rfl
      · rename_i hclimbs
        have hcut : names.length + 1 - climb steps = names.length - (climb steps - 1) := by omega
        rw [hcut, List.take_append_of_le_length (Nat.sub_le _ _)]

theorem root_notMem_components (h : p.isAbsolute = false) : .root ∉ p.components := by
  intro hroot
  have hsteps : .root ∉ p.segments.filterMap component? := fun hmem => isStep_of_mem_segments hmem
  rw [components_eq, componentsOf, h, if_neg Bool.false_ne_true] at hroot
  split at hroot
  · exact hsteps (List.mem_of_ne_of_mem (by decide) hroot)
  · exact hsteps hroot

/-- **Without a working directory, every second `..` that should stay is lost.** The names are those
of the normal form, but of the levels that a relative path climbs only the odd one is left. So the
result is the normal form exactly of the paths that climb one level at most. -/
theorem resolve_unanchored (h : p.isAbsolute = false) :
    (p.resolve none).components =
      List.replicate (climb p.components % 2) .parent ++
        (uncancelled p.components).map .normal ∧
    ((p.resolve none).components = normalForm p.components ↔ climb p.components ≤ 1) ∧
    climb (p.resolve none).components = climb p.components % 2 := by
  have hcancel := foldl_advance_unanchored (root_notMem_components h) 0 []
  have hcomponents : (p.resolve none).components =
      List.replicate (climb p.components % 2) .parent ++
        (uncancelled p.components).map .normal := by
    rw [components_resolve_eq, anchor, h]
    simpa [cancel] using hcancel
  refine ⟨hcomponents, ?_, ?_⟩
  · rw [hcomponents, normalForm, List.append_cancel_right_eq, List.replicate_left_inj]
    omega
  · rw [hcomponents, climb_parents]

/-- Two levels are lost at once. -/
theorem resolve_unanchored_two_levels :
    (ofString "a/../../../z").isAbsolute = false ∧ climb (ofString "a/../../../z").components = 2 ∧
      (ofString "a/../../../z").resolve none = ofString "z" ∧
      (ofString "a/../../../z").resolve none ≠ ofComponents
        (normalForm (ofString "a/../../../z").components) := by
  have hrelative : (ofString "a/../../../z").isAbsolute = false := by decide +kernel
  have hclimb : climb (ofString "a/../../../z").components = 2 := by decide +kernel
  obtain ⟨-, hnormal, -⟩ := resolve_unanchored hrelative
  refine ⟨hrelative, hclimb, by decide +kernel, fun heq => ?_⟩
  have hlevels := hnormal.1 (heq ▸ by decide +kernel)
  omega

end Path

end StyleAssets
