import StyleAssets.FileTree.Lookup
import StyleAssets.Proofs.Path.Canonical

/-!
# The last name of a path

* `Path.components_append_name` — a name behind a separator is one more component;
  `Path.components_join_name` — so is a name that is joined to a directory.
* `Path.steps_join_name` — and one more step on the way of a look-up.
* `Path.EndsIn` — the last piece of a path is a given name; joining and resolving keep it.
* `Path.components_resolve` — an absolute path resolves to names below the root.
-/

namespace StyleAssets.Path

variable {p q : Path} {name : Name} {front bytes : Bytes}

/-! ## One more name -/

/-- Nothing, or bytes with a separator at the end. -/
def IsFront (front : Bytes) : Prop := front = [] ∨ ∃ init, front = init ++ [separator]

theorem isAbsolute_name (h : separator ∉ name) : isAbsolute ⟨name⟩ = false := by
  refine Bool.eq_false_iff.2 fun habsolute => h ?_
  obtain ⟨rest, rfl⟩ := List.head?_eq_some_iff.1 (eq_of_beq habsolute)
  exact List.mem_cons_self

/-- The components of a path behind whose first piece more follows. -/
theorem components_of_segments {segments more : List Name} (hne : segments ≠ [])
    (hp : p.segments = segments ++ more) :
    p.components = if p.isAbsolute then .root :: (segments ++ more).filterMap component?
      else if segments.head? = some [dot] then .current :: (segments ++ more).filterMap component?
      else (segments ++ more).filterMap component? := by
  obtain ⟨first, rest, rfl⟩ := List.exists_cons_of_ne_nil hne
  rw [components, hp]
  rfl

/-- The pieces of a path that ends in a name behind a separator, or in a separator. -/
theorem segments_slash (bytes : Bytes) (h : separator ∉ name) :
    segments ⟨bytes ++ separator :: name⟩ = segments ⟨bytes⟩ ++ [name] := by
  rw [segments, segments, List.splitOn_append_cons_self, List.splitOn_eq_singleton h]

/-- A name behind a separator is one more component. -/
theorem components_append_name (hfront : IsFront front) (h : IsStep (.normal name)) :
    components ⟨front ++ name⟩ = components ⟨front⟩ ++ [.normal name] := by
  have hname : component? name = some (.normal name) := component?_bytes h
  obtain ⟨hempty, hdot, -, hplain⟩ := h
  obtain rfl | ⟨init, rfl⟩ := hfront
  · have hsegments : segments ⟨[] ++ name⟩ = [name] ++ [] := List.splitOn_eq_singleton hplain
    have hnone : components ⟨[]⟩ = [] := by decide
    rw [components_of_segments (List.cons_ne_nil _ _) hsegments, hnone, List.nil_append,
      isAbsolute_name hplain]
    simp [hname, hdot]
  · have hne : segments ⟨init⟩ ≠ [] := List.splitOn_ne_nil separator init
    have hbefore := segments_slash init (List.not_mem_nil (a := separator))
    have hafter := segments_slash init hplain
    have habsolute : isAbsolute ⟨init ++ separator :: name⟩ =
        isAbsolute ⟨init ++ [separator]⟩ := by
      simp only [isAbsolute, List.head?_append]
      cases init <;> rfl
    have hblank : component? [] = none := by decide
    rw [List.append_assoc, List.singleton_append, components_of_segments hne hbefore,
      components_of_segments hne hafter, habsolute]
    simp only [List.filterMap_append, List.filterMap_cons, hname, hblank, List.filterMap_nil,
      List.append_nil]
    split
    · rfl
    · split <;> rfl

/-- A separator at the end of a path is no component. -/
theorem components_slash (h : bytes ≠ []) :
    components ⟨bytes ++ [separator]⟩ = components ⟨bytes⟩ := by
  have hne : segments ⟨bytes⟩ ≠ [] := List.splitOn_ne_nil separator bytes
  have hbefore : segments ⟨bytes⟩ = segments ⟨bytes⟩ ++ [] := (List.append_nil _).symm
  have hafter := segments_slash bytes (List.not_mem_nil (a := separator))
  have habsolute : isAbsolute ⟨bytes ++ [separator]⟩ = isAbsolute ⟨bytes⟩ := by
    obtain ⟨b, bytes, rfl⟩ := List.exists_cons_of_ne_nil h
    rfl
  have hblank : component? [] = none := by decide
  rw [components_of_segments hne hbefore, components_of_segments hne hafter, habsolute]
  simp only [List.filterMap_append, List.filterMap_cons, hblank, List.filterMap_nil]

/-- What joining a relative path writes before it. -/
theorem exists_front_join (p : Path) (h : q.isAbsolute = false) :
    ∃ front, p.join q = ⟨front ++ q.bytes⟩ ∧ IsFront front ∧
      (front = p.bytes ∨ p.bytes ≠ [] ∧ front = p.bytes ++ [separator]) := by
  unfold join
  rw [h, if_neg Bool.false_ne_true]
  split
  · rename_i hp
    refine ⟨p.bytes, rfl, ?_, .inl rfl⟩
    obtain hp | hp := hp
    · exact .inl hp
    · obtain ⟨init, hinit⟩ := List.getLast?_eq_some_iff.1 hp
      exact .inr ⟨init, hinit⟩
  · rename_i hp
    exact ⟨p.bytes ++ [separator], by simp, .inr ⟨_, rfl⟩, .inr ⟨(not_or.1 hp).1, rfl⟩⟩

/-- **A name that is joined to a directory is one more component.** -/
theorem components_join_name (dir : Path) (h : IsStep (.normal name)) :
    (dir.join ⟨name⟩).components = dir.components ++ [.normal name] := by
  obtain ⟨front, hjoin, hfront, rfl | ⟨hne, rfl⟩⟩ :=
    exists_front_join dir (isAbsolute_name h.2.2.2)
  · rw [hjoin, components_append_name hfront h]
  · rw [hjoin, components_append_name hfront h, components_slash hne]

/-! ## One more step -/

theorem names_slash (bytes : Bytes) : names ⟨bytes ++ [separator]⟩ = names ⟨bytes⟩ := by
  rw [names, segments_slash bytes (List.not_mem_nil (a := separator)), List.filter_append]
  exact List.append_nil _

theorem names_append_name (hfront : IsFront front) (hname : name ≠ []) (hplain : separator ∉ name) :
    names ⟨front ++ name⟩ = names ⟨front⟩ ++ [name] := by
  have hlast : [name].filter (· != []) = [name] := by simp [hname]
  obtain rfl | ⟨init, rfl⟩ := hfront
  · have hsegments : segments ⟨name⟩ = [name] := List.splitOn_eq_singleton hplain
    rw [List.nil_append, names, hsegments, hlast]
    rfl
  · rw [names_slash, List.append_assoc, List.singleton_append, names, segments_slash init hplain,
      List.filter_append, hlast]
    rfl

theorem asksForDirectory_append_name (hname : name ≠ []) (hplain : separator ∉ name) :
    asksForDirectory ⟨front ++ name⟩ = false := by
  refine Bool.eq_false_iff.2 fun hasks => hplain ?_
  have hlast : (front ++ name).getLast? = some (name.getLast hname) := by
    rw [List.getLast?_append, List.getLast?_eq_some_getLast hname]
    rfl
  rw [asksForDirectory, hlast] at hasks
  exact Option.some.inj (eq_of_beq hasks) ▸ List.getLast_mem hname

theorem names_join_name (dir : Path) (h : IsStep (.normal name)) :
    (dir.join ⟨name⟩).names = dir.names ++ [name] := by
  obtain ⟨hempty, -, -, hplain⟩ := h
  obtain ⟨front, hjoin, hfront, hdir⟩ := exists_front_join dir (isAbsolute_name hplain)
  rw [hjoin, names_append_name hfront hempty hplain]
  obtain rfl | ⟨-, rfl⟩ := hdir
  · rfl
  · rw [names_slash]

theorem isAbsolute_join_name (dir : Path) (h : IsStep (.normal name)) :
    (dir.join ⟨name⟩).isAbsolute = dir.isAbsolute := by
  have hname := isAbsolute_name h.2.2.2
  obtain ⟨front, hjoin, -, hdir⟩ := exists_front_join dir hname
  rw [hjoin]
  cases hbytes : dir.bytes with
  | nil =>
    obtain rfl | ⟨hne, -⟩ := hdir
    · simpa [isAbsolute, hbytes] using hname
    · exact absurd hbytes hne
  | cons b rest => obtain rfl | ⟨-, rfl⟩ := hdir <;> simp [isAbsolute, hbytes]

/-- **A name that is joined to a directory is one more step**. -/
theorem steps_join_name (dir : Path) (h : IsStep (.normal name)) :
    (dir.join ⟨name⟩).steps = dir.names ++ [name] := by
  have hnames := names_join_name dir h
  obtain ⟨hempty, -, -, hplain⟩ := h
  obtain ⟨front, hjoin, -, -⟩ := exists_front_join dir (isAbsolute_name hplain)
  rw [hjoin] at hnames ⊢
  rw [steps, hnames, asksForDirectory_append_name hempty hplain]
  exact List.append_nil _

/-! ## The last name -/

/-- The last piece of a path is `name`. -/
def EndsIn (p : Path) (name : Name) : Prop := ∃ front, p.bytes = front ++ name ∧ IsFront front

theorem IsFront.append (hfront : IsFront front) {more : Bytes} (hmore : IsFront more) :
    IsFront (front ++ more) := by
  obtain rfl | ⟨init, rfl⟩ := hmore
  · rwa [List.append_nil]
  · exact .inr ⟨front ++ init, (List.append_assoc _ _ _).symm⟩

theorem EndsIn.join (p : Path) (h : q.EndsIn name) : (p.join q).EndsIn name := by
  cases habsolute : q.isAbsolute with
  | true =>
    rw [Path.join, if_pos habsolute]
    exact h
  | false =>
    obtain ⟨front, hjoin, hfront, -⟩ := exists_front_join p habsolute
    obtain ⟨more, hmore, hends⟩ := h
    exact ⟨front ++ more, by rw [hjoin, hmore, List.append_assoc], hfront.append hends⟩

theorem EndsIn.anchor (cwd : Option Path) (h : p.EndsIn name) : (p.anchor cwd).EndsIn name := by
  unfold Path.anchor
  split
  · exact h
  · cases cwd with
    | none => exact h
    | some directory => exact h.join directory

theorem EndsIn.components (h : p.EndsIn name) (hname : IsStep (.normal name)) :
    ∃ before, p.components = before ++ [.normal name] := by
  obtain ⟨bytes⟩ := p
  obtain ⟨front, rfl, hfront⟩ := h
  exact ⟨_, components_append_name hfront hname⟩

theorem fileName?_of_components {before : List Component}
    (h : p.components = before ++ [.normal name]) : p.fileName? = some name := by
  rw [fileName?, h, List.getLast?_concat]

theorem fileName?_congr (h : p.Same q) : p.fileName? = q.fileName? := by
  rw [fileName?, fileName?, h]

/-- A name at the end of a path is not resolved away. -/
theorem fileName?_resolve (cwd : Option Path) (h : p.EndsIn name) (hname : IsStep (.normal name)) :
    (p.resolve cwd).fileName? = some name := by
  obtain ⟨before, hbefore⟩ := (h.anchor cwd).components hname
  have hcomponents : (p.resolve cwd).components = cancel before ++ [.normal name] := by
    rw [resolve, components_ofComponents (isResolved_cancel _), hbefore, cancel,
      List.foldl_append]
    rfl
  exact fileName?_of_components hcomponents

/-! ## Absolute paths -/

theorem isAbsolute_join (h : p.isAbsolute = true) (q : Path) : (p.join q).isAbsolute = true := by
  obtain ⟨bytes⟩ := p
  obtain ⟨rest, rfl⟩ := List.head?_eq_some_iff.1 (eq_of_beq h)
  unfold join
  split
  · assumption
  · split <;> rfl

theorem isAbsolute_anchor {cwd : Path} (h : cwd.isAbsolute = true) (p : Path) :
    (p.anchor (some cwd)).isAbsolute = true := by
  unfold anchor
  split
  · assumption
  · exact isAbsolute_join h p

/-- Names cancel nothing. -/
theorem foldl_advance_names (done : List Component) (names : List Name) :
    (names.map .normal).foldl advance done = done ++ names.map .normal := by
  induction names generalizing done with
  | nil => exact (List.append_nil done).symm
  | cons name names ih =>
    rw [List.map_cons, List.foldl_cons, ih, advance, List.append_assoc]
    rfl

/-- From the root on, `.` and `..` take effect and only names remain. -/
theorem foldl_advance_root (steps : List Component) (h : ∀ c ∈ steps, IsStep c)
    (names : List Name) : ∃ names' : List Name,
      steps.foldl advance (.root :: names.map .normal) = .root :: names'.map .normal := by
  induction steps generalizing names with
  | nil => exact ⟨names, rfl⟩
  | cons c steps ih =>
    obtain ⟨hc, hsteps⟩ := List.forall_mem_cons.1 h
    have hstep : ∃ names' : List Name,
        advance (.root :: names.map .normal) c = .root :: names'.map .normal := by
      cases c with
      | root => cases hc
      | current => cases hc
      | normal name => exact ⟨names ++ [name], by simp [advance]⟩
      | parent =>
        obtain rfl | ⟨init, last, rfl⟩ := names.eq_nil_or_concat
        · exact ⟨[], rfl⟩
        · refine ⟨init, ?_⟩
          simp [advance, List.getLast?_cons, List.dropLast_cons_of_ne_nil]
    obtain ⟨names', hnames⟩ := hstep
    rw [List.foldl_cons, hnames]
    exact ih hsteps names'

/-- **A path resolves to names below the root**, if it can be anchored there. -/
theorem components_resolve {cwd : Option Path} (h : (p.anchor cwd).isAbsolute = true) :
    (p.resolve cwd).isAbsolute = true ∧
      ∃ names : List Name, (p.resolve cwd).components = .root :: names.map .normal := by
  have hcomponents : (p.anchor cwd).components =
      .root :: (p.anchor cwd).segments.filterMap component? := by
    rw [components, h]
    rfl
  obtain ⟨names, hnames⟩ := foldl_advance_root _ (fun c => isStep_of_mem_segments) []
  have hcancel : cancel (p.anchor cwd).components = .root :: names.map .normal := by
    rw [hcomponents, cancel, List.foldl_cons]
    exact hnames
  refine ⟨?_, names, ?_⟩
  · rw [resolve, hcancel]
    rfl
  · rw [resolve, components_ofComponents (isResolved_cancel _), hcancel]

end StyleAssets.Path
