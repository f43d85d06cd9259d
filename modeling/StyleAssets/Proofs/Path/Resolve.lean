import StyleAssets.Proofs.Path.Join
import StyleAssets.Proofs.Path.Parent

/-!
# Joining and resolving

Resolving takes the steps of a path one after the other, and joining a relative path adds its steps
to those that are there. So a directory may be resolved before anything is joined to it.

* `Path.trail` — the steps of a path; `Path.trail_join` says what joining does to them.
* `Path.resolve_join` — resolving a joined path goes on from the resolved directory.
* `Path.resolve_normal_form` — **main result**: from a working directory that is known, resolving
  gives a normal form, which joining respects.
-/

namespace StyleAssets.Path

variable {p q b cwd : Path} {name : Name}

/-! ## Steps -/

/-- The steps of a path: its components but for a root or a `.` at the start. -/
def trail (p : Path) : List Component := p.segments.filterMap component?

theorem isStep_of_mem_trail {c : Component} (h : c ∈ p.trail) : IsStep c :=
  isStep_of_mem_segments h

theorem components_of_isAbsolute (h : p.isAbsolute = true) : p.components = .root :: p.trail := by
  rw [components, h]
  rfl

theorem trail_name (h : IsStep (.normal name)) : trail ⟨name⟩ = [.normal name] := by
  rw [trail, segments, List.splitOn_eq_singleton h.2.2.2, List.filterMap_cons,
    show component? name = some (.normal name) from component?_bytes h]
  rfl

theorem trail_congr (h : p.Same q) : p.trail = q.trail := by
  rw [trail, trail, steps_eq_filter, steps_eq_filter, h]

theorem isAbsolute_congr (h : p.Same q) : p.isAbsolute = q.isAbsolute := by
  rw [Bool.eq_iff_iff, isAbsolute_iff_components, isAbsolute_iff_components, h]

/-- The steps before and behind a separator. -/
theorem trail_slash (init bytes : Bytes) :
    trail ⟨init ++ separator :: bytes⟩ = trail ⟨init⟩ ++ trail ⟨bytes⟩ := by
  rw [trail, segments, List.splitOn_append_cons_self, List.filterMap_append]
  rfl

theorem trail_front {front : Bytes} (h : IsFront front) (bytes : Bytes) :
    trail ⟨front ++ bytes⟩ = trail ⟨front⟩ ++ trail ⟨bytes⟩ := by
  have hnone : trail ⟨[]⟩ = [] := rfl
  obtain rfl | ⟨init, rfl⟩ := h
  · rw [hnone]
    rfl
  · rw [List.append_assoc, List.singleton_append, trail_slash, trail_slash, hnone, List.append_nil]

/-- **Joining a relative path adds its steps.** -/
theorem trail_join (b : Path) (h : p.isAbsolute = false) :
    (b.join p).trail = b.trail ++ p.trail := by
  obtain ⟨front, hjoin, hfront, hb⟩ := exists_front_join b h
  rw [hjoin, trail_front hfront]
  obtain rfl | ⟨-, rfl⟩ := hb
  · rfl
  · rw [trail_slash, show trail ⟨[]⟩ = [] from rfl, List.append_nil]

theorem isAbsolute_join_of_relative (b : Path) (h : p.isAbsolute = false) :
    (b.join p).isAbsolute = b.isAbsolute := by
  obtain ⟨front, hjoin, -, hfront⟩ := exists_front_join b h
  rw [hjoin]
  obtain rfl | ⟨hne, rfl⟩ := hfront
  · cases hb : b.bytes with
    | nil => simpa [isAbsolute, hb] using h
    | cons first rest => simp [isAbsolute, hb]
  · obtain ⟨first, rest, hb⟩ := List.exists_cons_of_ne_nil hne
    simp [isAbsolute, hb]

theorem join_of_isAbsolute (b : Path) (h : p.isAbsolute = true) : b.join p = p := if_pos h

/-! ## Resolving -/

/-- What a path resolves to: the root and names below it. -/
theorem exists_names_cancel (hp : p.isAbsolute = true) :
    ∃ names : List Name, cancel p.components = .root :: names.map .normal := by
  obtain ⟨names, hnames⟩ := foldl_advance_root p.trail (fun c => isStep_of_mem_trail) []
  refine ⟨names, ?_⟩
  rw [components_of_isAbsolute hp, cancel, List.foldl_cons]
  exact hnames

theorem resolve_of_isAbsolute (cwd : Option Path) (hp : p.isAbsolute = true) :
    p.resolve cwd = ofComponents (cancel p.components) := by
  rw [resolve, show p.anchor cwd = p from if_pos hp]

theorem components_resolve_eq (cwd : Option Path) (p : Path) :
    (p.resolve cwd).components = cancel (p.anchor cwd).components :=
  components_ofComponents (isResolved_cancel _)

/-- A relative path resolves from where the working directory resolves to. -/
theorem cancel_anchor (hcwd : cwd.isAbsolute = true) (p : Path) :
    cancel (p.anchor (some cwd)).components =
      p.trail.foldl advance (if p.isAbsolute then [.root] else cancel cwd.components) := by
  unfold anchor
  split
  · rename_i hp
    rw [components_of_isAbsolute hp]
    rfl
  · rename_i hp
    have hp : p.isAbsolute = false := by simpa using hp
    have habsolute : (cwd.join p).isAbsolute = true :=
      (isAbsolute_join_of_relative cwd hp).trans hcwd
    rw [components_of_isAbsolute habsolute, trail_join cwd hp, components_of_isAbsolute hcwd,
      cancel, cancel, ← List.foldl_append, List.cons_append]

/-- What is resolved is left as it is. -/
theorem resolve_resolve (hcwd : cwd.isAbsolute = true) (cwd' : Option Path) (p : Path) :
    (p.resolve (some cwd)).resolve cwd' = p.resolve (some cwd) := by
  have hanchor := isAbsolute_anchor hcwd p
  obtain ⟨names, hnames⟩ := exists_names_cancel hanchor
  have habsolute := (components_resolve hanchor).1
  rw [resolve_of_isAbsolute cwd' habsolute, components_resolve_eq, hnames, cancel, List.foldl_cons,
    resolve, hnames]
  exact congrArg ofComponents (foldl_advance_names [.root] names)

theorem resolve_congr (hcwd : cwd.isAbsolute = true) (h : p.Same q) :
    p.resolve (some cwd) = q.resolve (some cwd) := by
  rw [resolve, resolve, cancel_anchor hcwd, cancel_anchor hcwd, trail_congr h, isAbsolute_congr h]

/-- **Resolving a joined path goes on from the resolved directory.** -/
theorem resolve_join (hcwd : cwd.isAbsolute = true) (b : Path) (hp : p.isAbsolute = false) :
    (b.join p).resolve (some cwd) =
      ofComponents (p.trail.foldl advance (b.resolve (some cwd)).components) := by
  rw [resolve, cancel_anchor hcwd, isAbsolute_join_of_relative b hp, trail_join b hp,
    List.foldl_append, ← cancel_anchor hcwd, components_resolve_eq]

/-- What is joined does not see how its directory was written. -/
theorem resolve_join_congr {b' : Path} (hcwd : cwd.isAbsolute = true)
    (h : b.resolve (some cwd) = b'.resolve (some cwd)) (p : Path) :
    (b.join p).resolve (some cwd) = (b'.join p).resolve (some cwd) := by
  cases hp : p.isAbsolute with
  | true => rw [join_of_isAbsolute b hp, join_of_isAbsolute b' hp]
  | false => rw [resolve_join hcwd b hp, resolve_join hcwd b' hp, h]

/-- The path `..`. -/
def upward : Path := ⟨[dot, dot]⟩

/-- A name and `..` cancel each other. -/
theorem resolve_upward_name (hcwd : cwd.isAbsolute = true) (b : Path)
    (hname : IsStep (.normal name)) :
    ((b.join ⟨name⟩).join upward).resolve (some cwd) = b.resolve (some cwd) := by
  have hrelative := isAbsolute_name hname.2.2.2
  rw [resolve_join hcwd _ rfl, components_resolve_eq, cancel_anchor hcwd,
    isAbsolute_join_of_relative b hrelative, trail_join b hrelative, trail_name hname,
    List.foldl_append, ← cancel_anchor hcwd, resolve]
  refine congrArg ofComponents ?_
  simp [show trail upward = [.parent] from rfl, advance]

/-- There is nothing above the root. -/
theorem resolve_upward_root (hcwd : cwd.isAbsolute = true)
    (hb : b.resolve (some cwd) = ⟨[separator]⟩) :
    (b.join upward).resolve (some cwd) = b.resolve (some cwd) := by
  rw [resolve_join hcwd b rfl, hb]
  rfl

/-- **Resolving gives a normal form:** an absolute path without `.` and `..`, which resolving again
leaves as it is. It depends on the components of a path only. A directory may be resolved before
something is joined to it, a name and a `..` behind it may be left out, and so may a `..` at the
root. -/
theorem resolve_normal_form (hcwd : cwd.isAbsolute = true) :
    (∀ p : Path, (p.resolve (some cwd)).isAbsolute = true ∧
      .current ∉ (p.resolve (some cwd)).components ∧
      .parent ∉ (p.resolve (some cwd)).components ∧
      (p.resolve (some cwd)).resolve (some cwd) = p.resolve (some cwd)) ∧
    (∀ p q : Path, p.Same q → p.resolve (some cwd) = q.resolve (some cwd)) ∧
    (∀ b p : Path, (b.join p).resolve (some cwd) =
      ((b.resolve (some cwd)).join p).resolve (some cwd)) ∧
    (∀ (b p : Path) (name : Name), IsStep (.normal name) →
      (((b.join ⟨name⟩).join upward).join p).resolve (some cwd) =
        (b.join p).resolve (some cwd)) ∧
    ∀ b p : Path, b.resolve (some cwd) = ⟨[separator]⟩ →
      ((b.join upward).join p).resolve (some cwd) = (b.join p).resolve (some cwd) := by
  refine ⟨fun p => ?_, fun p q => resolve_congr hcwd, fun b p => ?_, fun b p name hname => ?_,
    fun b p hb => ?_⟩
  · obtain ⟨habsolute, names, hnames⟩ := components_resolve (isAbsolute_anchor hcwd p)
    exact ⟨habsolute, by simp [hnames], by simp [hnames], resolve_resolve hcwd _ p⟩
  · exact resolve_join_congr hcwd (resolve_resolve hcwd _ b).symm p
  · exact resolve_join_congr hcwd (resolve_upward_name hcwd b hname) p
  · exact resolve_join_congr hcwd (resolve_upward_root hcwd hb) p

/-- From `/w`, the path `../..` is the root, and a name of two bytes that are no text cancels. -/
theorem resolve_normal_form_above_root :
    (ofString "/w").isAbsolute = true ∧ IsStep (.normal [0xC3, 0x28]) ∧
      (((ofString "../..").join ⟨[0xC3, 0x28]⟩).join upward).join (ofString "../a") =
        ⟨Utf8.encode "../../".toList ++ [0xC3, 0x28] ++ Utf8.encode "/../../a".toList⟩ ∧
      ((((ofString "../..").join ⟨[0xC3, 0x28]⟩).join upward).join (ofString "../a")).resolve
        (some (ofString "/w")) = ofString "/a" ∧
      ((ofString "../../a").resolve (some (ofString "/w"))).resolve (some (ofString "/w")) =
        ofString "/a" := by
  have hcwd : (ofString "/w").isAbsolute = true := by decide +kernel
  have hname : IsStep (.normal [0xC3, 0x28]) := by decide
  obtain ⟨hnormal, -, -, hcancel, hroot⟩ := resolve_normal_form hcwd
  have habove : (ofString "../..").resolve (some (ofString "/w")) = ⟨[separator]⟩ := by
    decide +kernel
  have hup := hroot (ofString "../..") (ofString "a") habove
  refine ⟨hcwd, hname, by decide +kernel, ?_, ?_⟩
  · rw [hcancel _ _ _ hname]
    exact hup.trans (by decide +kernel)
  · rw [(hnormal _).2.2.2]
    decide +kernel

end StyleAssets.Path
