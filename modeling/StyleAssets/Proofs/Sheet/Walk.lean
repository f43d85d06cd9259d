import StyleAssets.Stylesheet

/-!
# Walks over declarations

* `Declaration.walk_collect` — a walk that writes something down meets every declaration and changes
  none.
* `Located.walk_spec` — a walk over a stylesheet is one over its declarations, and leaves the places
  where they were found as they are.
* The two kinds of sheets are lawful.
-/

namespace StyleAssets

variable {τ : Type} (visit : Declaration → StateM τ Text)

@[simp] theorem Declaration.run_walk_nil (state : τ) :
    (Declaration.walk visit []).run state = ([], state) := rfl

@[simp] theorem Declaration.run_walk_cons (d : Declaration) (rest : List Declaration) (state : τ) :
    (Declaration.walk visit (d :: rest)).run state =
      let (value, state) := (visit d).run state
      let (rest, state) := (Declaration.walk visit rest).run state
      ({ d with value } :: rest, state) := by
  simp [Declaration.walk, List.mapM_cons]
  rfl

@[simp] theorem Located.run_walk_cons (l : Located) (rest : List Located) (state : τ) :
    (Located.walk visit (l :: rest)).run state =
      let (value, state) := (visit l.declaration).run state
      let (rest, state) := (Located.walk visit rest).run state
      ({ l with value } :: rest, state) := by
  simp [Located.walk, List.mapM_cons]
  rfl

/-- A walk that only writes something down of each declaration. -/
theorem Declaration.walk_collect {α : Type} (f : Declaration → α) (all : List Declaration)
    (seen : List α) :
    (Declaration.walk (fun d => do modify (f d :: ·); return d.value) all).run seen =
      (all, (all.map f).reverse ++ seen) := by
  induction all generalizing seen with
  | nil => rfl
  | cons d all ih =>
    rw [Declaration.run_walk_cons]
    show ((d :: ((Declaration.walk _ all).run (f d :: seen)).1),
      ((Declaration.walk _ all).run (f d :: seen)).2) = _
    rw [ih, List.map_cons, List.reverse_cons, List.append_assoc]
    rfl

theorem Declaration.walk_note (all : List Declaration) :
    (Declaration.walk Declaration.note all).run [] = (all, all.reverse) := by
  have h := Declaration.walk_collect id all []
  rwa [List.map_id, List.append_nil] at h

/-- A walk over located declarations is one over the declarations, and moves none of them. -/
theorem Located.walk_spec (all : List Located) (state : τ) :
    ((Located.walk visit all).run state).1.map Located.declaration =
        ((Declaration.walk visit (all.map Located.declaration)).run state).1 ∧
      ((Located.walk visit all).run state).2 =
        ((Declaration.walk visit (all.map Located.declaration)).run state).2 ∧
      ((Located.walk visit all).run state).1.map Located.found = all.map Located.found := by
  induction all generalizing state with
  | nil => exact ⟨rfl, rfl, rfl⟩
  | cons l all ih =>
    obtain ⟨hdeclarations, hstate, hfound⟩ := ih ((visit l.declaration).run state).2
    rw [Located.run_walk_cons, List.map_cons, Declaration.run_walk_cons]
    exact ⟨congrArg _ hdeclarations, hstate, congrArg (l.found :: ·) hfound⟩

/-- Gives each declaration the next of some values. -/
def Declaration.assign (d : Declaration) : StateM (List Text) Text :=
  modifyGet fun values => (values.headD d.value, values.tail)

theorem Declaration.values_walk_assign {all : List Declaration} {values : List Text}
    (h : values.length = all.length) :
    ((Declaration.walk assign all).run values).1.map Declaration.value = values := by
  induction all generalizing values with
  | nil => exact (List.length_eq_zero_iff.1 h).symm
  | cons d all ih =>
    cases values with
    | nil => cases h
    | cons value values =>
      rw [Declaration.run_walk_cons]
      exact congrArg (value :: ·) (ih (Nat.succ.inj h))

/-! ## Lists of declarations -/

theorem DeclarationList.run_walk (s : DeclarationList) (state : τ) :
    (StyleTree.walk visit s).run state =
      ({ s with declarations := ((Declaration.walk visit s.declarations).run state).1 },
        ((Declaration.walk visit s.declarations).run state).2) := rfl

theorem DeclarationList.declarations_eq (s : DeclarationList) :
    StyleTree.declarations s = s.declarations := by
  unfold StyleTree.declarations
  rw [DeclarationList.run_walk, Declaration.walk_note]
  simp

instance : LawfulStyleTree DeclarationList where
  declarations_walk visit s state := by
    rw [DeclarationList.declarations_eq, DeclarationList.declarations_eq, s.run_walk]
  state_walk visit s state := by
    rw [DeclarationList.declarations_eq, s.run_walk]

/-! ## Stylesheets -/

namespace Stylesheet

theorem run_walk (s : Stylesheet) (state : τ) :
    (StyleTree.walk visit s).run state =
      ({ s with located := ((Located.walk visit s.located).run state).1 },
        ((Located.walk visit s.located).run state).2) := rfl

theorem declarations_eq (s : Stylesheet) : StyleTree.declarations s = s.declarations := by
  unfold StyleTree.declarations
  rw [run_walk, (Located.walk_spec _ s.located []).2.1, Declaration.walk_note]
  simp [declarations]

instance : LawfulStyleTree Stylesheet where
  declarations_walk visit s state := by
    rw [declarations_eq, declarations_eq, run_walk]
    exact (Located.walk_spec visit s.located state).1
  state_walk visit s state := by
    rw [declarations_eq, run_walk]
    exact (Located.walk_spec visit s.located state).2.1

/-- What some walks can make of a sheet. -/
inductive Walked (s : Stylesheet) : Stylesheet → Prop
  | refl : Walked s s
  | walk {τ : Type} {s' : Stylesheet} (h : Walked s s') (visit : Declaration → StateM τ Text)
      (state : τ) : Walked s ((StyleTree.walk visit s').run state).1

/-- Walks change values only. -/
theorem Walked.found_eq {s s' : Stylesheet} (h : Walked s s') :
    s'.text = s.text ∧ s'.located.map Located.found = s.located.map Located.found := by
  induction h with
  | refl => exact ⟨rfl, rfl⟩
  | walk h visit state ih =>
    rename_i s'
    refine ⟨ih.1, ?_⟩
    rw [run_walk, ← ih.2]
    exact (Located.walk_spec visit s'.located state).2.2

/-- Nothing else about the sheet changes. -/
theorem Walked.eq_located {s s' : Stylesheet} (h : Walked s s') :
    s' = { s with located := s'.located } := by
  induction h with
  | refl => rfl
  | walk h visit state ih =>
    rw [run_walk, ih]

/-- A declaration of a text is given by its place and its present value. -/
theorem located_ext {all all' : List Located}
    (hfound : all.map Located.found = all'.map Located.found)
    (hdeclarations : all.map Located.declaration = all'.map Located.declaration) :
    all = all' := by
  have hpairs : all.map (fun l => (l.found, l.declaration)) =
      all'.map fun l => (l.found, l.declaration) := by
    rw [← List.zip_map', ← List.zip_map', hfound, hdeclarations]
  refine (List.map_inj_right fun l l' heq => ?_).1 hpairs
  obtain ⟨found, value⟩ := l
  obtain ⟨found', value'⟩ := l'
  simp only [Located.declaration, Prod.mk.injEq, Declaration.mk.injEq] at heq
  obtain ⟨rfl, -, rfl⟩ := heq
  rfl

/-- **What walks have made of a sheet is told by its declarations.** -/
theorem Walked.eq_of_declarations {s s' s'' : Stylesheet} (h : Walked s s') (h' : Walked s s'')
    (hsame : StyleTree.declarations s' = StyleTree.declarations s'') : s' = s'' := by
  have hlocated : s'.located = s''.located := by
    refine located_ext (h.found_eq.2.trans h'.found_eq.2.symm) ?_
    rwa [declarations_eq, declarations_eq] at hsame
  rw [h.eq_located, h'.eq_located, hlocated]

/-- Every choice of values can be put in place. -/
theorem exists_walked (s : Stylesheet) {values : List Text}
    (h : values.length = (StyleTree.declarations s).length) :
    ∃ s', s.Walked s' ∧ (StyleTree.declarations s').map Declaration.value = values := by
  refine ⟨_, .walk .refl Declaration.assign values, ?_⟩
  rw [LawfulStyleTree.declarations_walk]
  exact Declaration.values_walk_assign h

end Stylesheet

end StyleAssets
