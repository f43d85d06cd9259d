import StyleAssets.Asset.Copy
import StyleAssets.Proofs.Text.Utf8
import StyleAssets.Proofs.Url.Extension

/-!
# Paths that are the same

Paths are the same if their components are; they may still be written in different ways and then be
looked up differently. Resolved paths and the targets of copies are written in one way only.

* `Path.components_ofComponents` — a path has the components that it was written from, if they are
  what resolving leaves; `Path.eq_of_same_resolve` — resolved paths that are the same are equal.
* `Path.eq_of_same_append` — so are files of one directory whose names start alike.
* `CopyJob.source_eq_of_same`, `CopyJob.target_eq_of_same` — so are sources and targets of copies.
-/

namespace StyleAssets

namespace Path

variable {p q : Path}

/-! ## Segments -/

/-- What is written behind some bytes without a separator belongs to their last piece. -/
theorem splitOn_append (b : UInt8) (bytes : Bytes) :
    ∃ init last, ∀ more : Bytes, b ∉ more → (bytes ++ more).splitOn b = init ++ [last ++ more] := by
  induction bytes with
  | nil => exact ⟨[], [], fun more hmore => by simp [List.splitOn_eq_singleton hmore]⟩
  | cons c bytes ih =>
    obtain ⟨init, last, hsplit⟩ := ih
    by_cases hc : (c == b) = true
    · refine ⟨[] :: init, last, fun more hmore => ?_⟩
      rw [List.cons_append, List.splitOn_cons_eq_if_modifyHead, if_pos hc, hsplit more hmore,
        List.cons_append]
    · cases init with
      | nil =>
        refine ⟨[], c :: last, fun more hmore => ?_⟩
        rw [List.cons_append, List.splitOn_cons_eq_if_modifyHead, if_neg hc, hsplit more hmore]
        rfl
      | cons first init =>
        refine ⟨(c :: first) :: init, last, fun more hmore => ?_⟩
        rw [List.cons_append, List.splitOn_cons_eq_if_modifyHead, if_neg hc, hsplit more hmore]
        rfl

/-! ## Resolved paths -/

theorem component?_bytes {c : Component} (h : IsStep c) : component? c.bytes = some c := by
  cases c with
  | parent => decide
  | normal name =>
    obtain ⟨hempty, hdot, hparent, -⟩ := h
    simp [component?, Component.bytes, hempty, hdot, hparent]
  | root => cases h
  | current => cases h

theorem bytes_of_isStep {c : Component} (h : IsStep c) :
    c.bytes ≠ [] ∧ c.bytes ≠ [dot] ∧ separator ∉ c.bytes := by
  cases c with
  | parent => decide
  | normal name => exact ⟨h.1, h.2.1, h.2.2.2⟩
  | root => cases h
  | current => cases h

theorem isStep_of_component? {segment : Name} {c : Component} (h : component? segment = some c)
    (hsegment : separator ∉ segment) : IsStep c := by
  unfold component? at h
  split at h
  · cases h
  · rename_i hname
    obtain ⟨hempty, hdot⟩ := not_or.1 hname
    split at h
    · cases h
      exact trivial
    · cases h
      exact ⟨hempty, hdot, ‹_›, hsegment⟩

theorem isStep_of_mem_segments {c : Component} (h : c ∈ p.segments.filterMap component?) :
    IsStep c := by
  obtain ⟨segment, hsegment, hcomponent⟩ := List.mem_filterMap.1 h
  exact isStep_of_component? hcomponent (not_mem_of_mem_splitOn hsegment)

theorem isStep_of_mem_components {c : Component} (h : c ∈ p.components) :
    IsStep c ∨ c = .root ∨ c = .current := by
  have hsteps : ∀ c ∈ p.segments.filterMap component?, IsStep c := fun c => isStep_of_mem_segments
  unfold components at h
  simp only at h
  split at h
  · obtain rfl | h := List.mem_cons.1 h
    · exact .inr (.inl rfl)
    · exact .inl (hsteps c h)
  · split at h
    · obtain rfl | h := List.mem_cons.1 h
      · exact .inr (.inr rfl)
      · exact .inl (hsteps c h)
    · exact .inl (hsteps c h)

theorem isStep_of_fileName? {name : Name} (h : p.fileName? = some name) :
    IsStep (.normal name) := by
  unfold fileName? at h
  split at h
  · rename_i hlast
    cases h
    obtain hstep | hroot | hcurrent := isStep_of_mem_components (List.mem_of_getLast? hlast)
    · exact hstep
    · cases hroot
    · cases hcurrent
  · cases h

/-- Steps, perhaps from the root. -/
def IsResolved (components : List Component) : Prop :=
  ∃ steps, (∀ c ∈ steps, IsStep c) ∧ (components = steps ∨ components = .root :: steps)

theorem isResolved_advance {done : List Component} (h : IsResolved done) {c : Component}
    (hc : IsStep c ∨ c = .root ∨ c = .current) : IsResolved (advance done c) := by
  obtain ⟨steps, hsteps, hdone⟩ := h
  have hdrop : ∀ c ∈ steps.dropLast, IsStep c := fun c hc => hsteps c (List.dropLast_subset _ hc)
  obtain hc | rfl | rfl := hc
  · cases c with
    | root => cases hc
    | current => cases hc
    | parent =>
      simp only [advance]
      split
      · exact ⟨[.parent], by simpa using hc, .inl rfl⟩
      · exact ⟨steps, hsteps, hdone⟩
      · rename_i last hroot hlast
        obtain rfl | rfl := hdone
        · exact ⟨_, hdrop, .inl rfl⟩
        · cases steps with
          | nil => exact absurd (by simpa using hlast.symm) hroot
          | cons first steps => exact ⟨_, hdrop, .inr rfl⟩
    | normal name =>
      have hmore : ∀ c ∈ steps ++ [.normal name], IsStep c := by
        intro c' hc'
        obtain hc' | hc' := List.mem_append.1 hc'
        · exact hsteps c' hc'
        · rw [List.mem_singleton.1 hc']
          exact hc
      obtain rfl | rfl := hdone
      · exact ⟨_, hmore, .inl rfl⟩
      · exact ⟨_, hmore, .inr rfl⟩
  · exact ⟨[], by simp, .inr rfl⟩
  · exact ⟨steps, hsteps, hdone⟩

theorem isResolved_cancel (p : Path) : IsResolved (cancel p.components) := by
  have hall : ∀ c ∈ p.components, IsStep c ∨ c = .root ∨ c = .current :=
    fun c hc => isStep_of_mem_components hc
  have hfold : ∀ (components done : List Component), IsResolved done →
      (∀ c ∈ components, IsStep c ∨ c = .root ∨ c = .current) →
        IsResolved (components.foldl advance done) := by
    intro components
    induction components with
    | nil => exact fun done hdone _ => hdone
    | cons c components ih =>
      intro done hdone hall
      obtain ⟨hc, hall⟩ := List.forall_mem_cons.1 hall
      exact ih _ (isResolved_advance hdone hc) hall
  exact hfold _ [] ⟨[], by simp, .inl rfl⟩ hall

theorem filterMap_component?_bytes {steps : List Component} (h : ∀ c ∈ steps, IsStep c) :
    (steps.map Component.bytes).filterMap component? = steps := by
  rw [List.filterMap_map]
  have hall : ∀ c ∈ steps, (component? ∘ Component.bytes) c = some c :=
    fun c hc => component?_bytes (h c hc)
  induction steps with
  | nil => rfl
  | cons c steps ih =>
    obtain ⟨hc, hall⟩ := List.forall_mem_cons.1 hall
    rw [List.filterMap_cons, hc, ih (fun c hc => h c (.tail _ hc)) hall]

theorem splitOn_intercalate_bytes {steps : List Component} (h : ∀ c ∈ steps, IsStep c)
    (hne : steps ≠ []) :
    ([separator].intercalate (steps.map Component.bytes)).splitOn separator =
      steps.map Component.bytes := by
  refine List.splitOn_intercalate separator (fun bytes hbytes => ?_) (by simpa using hne)
  obtain ⟨c, hc, rfl⟩ := List.mem_map.1 hbytes
  exact (bytes_of_isStep (h c hc)).2.2

/-- **A resolved path has the components that it was written from.** -/
theorem components_ofComponents {components : List Component} (h : IsResolved components) :
    (ofComponents components).components = components := by
  obtain ⟨steps, hsteps, hwritten | hwritten⟩ := h
  · rw [hwritten]
    clear hwritten
    cases steps with
    | nil => rfl
    | cons c steps =>
      have hwritten : ofComponents (c :: steps) =
          ⟨[separator].intercalate ((c :: steps).map Component.bytes)⟩ := by
        have hc := hsteps c List.mem_cons_self
        cases c with
        | root => cases hc
        | current => cases hc
        | parent => rfl
        | normal name => rfl
      have hsegments := splitOn_intercalate_bytes hsteps (List.cons_ne_nil _ _)
      obtain ⟨hempty, hdot, hplain⟩ := bytes_of_isStep (hsteps c List.mem_cons_self)
      have habsolute : (ofComponents (c :: steps)).isAbsolute = false := by
        obtain ⟨b, name, hname⟩ := List.exists_cons_of_ne_nil hempty
        have hb : b ≠ separator := by
          rintro rfl
          rw [hname] at hplain
          exact hplain List.mem_cons_self
        rw [hwritten]
        cases steps <;> simp [isAbsolute, List.intercalate, hname, hb]
      rw [Path.components, habsolute, hwritten, segments, hsegments]
      simp only [Bool.false_eq_true, if_false, List.map_cons, List.head?_cons, Option.some.injEq,
        hdot]
      exact filterMap_component?_bytes hsteps
  · rw [hwritten]
    have habsolute : (ofComponents (.root :: steps)).isAbsolute = true := by
      simp [isAbsolute, ofComponents]
    have hsegments : (ofComponents (.root :: steps)).segments.filterMap component? = steps := by
      rw [segments, ofComponents, List.splitOn_cons_eq_if_modifyHead, if_pos (beq_self_eq_true _),
        List.filterMap_cons]
      cases steps with
      | nil => rfl
      | cons c steps =>
        rw [splitOn_intercalate_bytes hsteps (List.cons_ne_nil _ _)]
        exact filterMap_component?_bytes hsteps
    rw [Path.components, habsolute, hsegments]
    rfl

/-- **Resolved paths that are the same are equal.** -/
theorem eq_of_same_resolve {cwd cwd' : Option Path}
    (h : (p.resolve cwd).Same (q.resolve cwd')) : p.resolve cwd = q.resolve cwd' := by
  rw [Path.Same, resolve, resolve, components_ofComponents (isResolved_cancel _),
    components_ofComponents (isResolved_cancel _)] at h
  rw [resolve, resolve, h]

/-! ## Files of one directory -/

/-- Paths that are written alike up to a byte within their last name differ in that name. -/
theorem eq_of_same_append {bytes : Bytes} {b : UInt8} {more more' : Bytes}
    (hb : b ≠ dot ∧ b ≠ separator) (hmore : separator ∉ more) (hmore' : separator ∉ more')
    (h : Path.Same ⟨bytes ++ b :: more⟩ ⟨bytes ++ b :: more'⟩) : more = more' := by
  obtain ⟨init, last, hsplit⟩ := splitOn_append separator bytes
  have hlast : ∀ more : Bytes, separator ∉ more →
      (Path.components ⟨bytes ++ b :: more⟩).getLast? = some (.normal (last ++ b :: more)) := by
    intro more hmore
    have hname : component? (last ++ b :: more) = some (.normal (last ++ b :: more)) := by
      have hne : ∀ name : Name, (∀ x ∈ name, x = dot) → last ++ b :: more ≠ name := by
        rintro name hname rfl
        exact hb.1 (hname b (by simp))
      simp [component?, hne [] (by simp), hne [dot] (by simp), hne [dot, dot] (by simp)]
    have hsegments : (Path.segments ⟨bytes ++ b :: more⟩).filterMap component? =
        init.filterMap component? ++ [.normal (last ++ b :: more)] := by
      rw [segments, hsplit (b :: more) (by simp [hmore, Ne.symm hb.2]), List.filterMap_append,
        List.filterMap_cons, hname]
      rfl
    rw [Path.components, hsegments]
    split
    · simp [List.getLast?_cons]
    · split
      · simp [List.getLast?_cons]
      · simp
  have heq := congrArg List.getLast? h
  rw [hlast more hmore, hlast more' hmore'] at heq
  simpa using heq

end Path

/-- There is no separator in the bytes of a text without one. -/
theorem Utf8.separator_notMem_encode {t : Text} (h : '/' ∉ t) :
    Path.separator ∉ Utf8.encode t := by
  intro hmem
  obtain ⟨c, hc, hbyte⟩ := List.mem_flatMap.1 hmem
  have hval : c.val.toNat = 0x2F := eq_of_mem_encodeChar (by decide) hbyte
  obtain rfl : c = '/' := Char.ext (UInt32.toNat_inj.1 hval)
  exact h hc

namespace CopyJob

/-- Sources of copies that are the same are equal. -/
theorem source_eq_of_same {cwd cwd' : Option Path} {sheet sheet' dir dir' : Path} {raw raw' : Text}
    (h : (ofAsset (.derive cwd sheet raw) dir).source.Same
      (ofAsset (.derive cwd' sheet' raw') dir').source) :
    (ofAsset (.derive cwd sheet raw) dir).source =
      (ofAsset (.derive cwd' sheet' raw') dir').source :=
  Path.eq_of_same_resolve h

/-- What is joined is written at the end. -/
theorem join_bytes (dir : Path) {name : Text} (hname : name ≠ []) (more : Text) :
    (dir.join (.ofText (name ++ more))).bytes =
      (dir.join (.ofText name)).bytes ++ Utf8.encode more := by
  have hencode := Utf8.encode_append name more
  have hempty : Utf8.encode name ≠ [] := by
    obtain ⟨c, name, rfl⟩ := List.exists_cons_of_ne_nil hname
    simp [Utf8.encode, String.utf8EncodeChar_ne_nil]
  have habsolute : (Path.ofText (name ++ more)).isAbsolute = (Path.ofText name).isAbsolute := by
    obtain ⟨b, bytes, hbytes⟩ := List.exists_cons_of_ne_nil hempty
    simp [Path.isAbsolute, Path.ofText, hencode, hbytes]
  unfold Path.join
  rw [habsolute]
  split
  · exact hencode
  · split <;> simp [Path.ofText, hencode]

/-- Targets that one sheet gives to copies are equal if they are the same. -/
theorem target_eq_of_same {cwd : Option Path} {sheet dir : Path} {raw raw' : Text}
    (h : (ofAsset (.derive cwd sheet raw) dir).target.Same
      (ofAsset (.derive cwd sheet raw') dir).target) :
    (ofAsset (.derive cwd sheet raw) dir).target =
      (ofAsset (.derive cwd sheet raw') dir).target := by
  -- the names start alike, with the stem of the sheet, up to the last `_` before the base name
  obtain ⟨dumped, hbetween, hdumped⟩ : ∃ dumped, OutputAsset.infixText = dumped ++ ['_'] ∧
      dumped ≠ [] := ⟨"_dumped".toList, by decide, by decide⟩
  have hwritten : ∀ raw, (ofAsset (.derive cwd sheet raw) dir).target =
      ⟨(dir.join (.ofText (OutputAsset.stem sheet ++ dumped))).bytes ++
        0x5F :: Utf8.encode (OutputAsset.baseName raw)⟩ := by
    intro raw
    have hjoin := join_bytes dir
      (List.append_ne_nil_of_right_ne_nil (OutputAsset.stem sheet) hdumped)
      ('_' :: OutputAsset.baseName raw)
    have hname : OutputAsset.stem sheet ++ OutputAsset.infixText ++ OutputAsset.baseName raw =
        OutputAsset.stem sheet ++ dumped ++ '_' :: OutputAsset.baseName raw := by
      simp [hbetween]
    rw [ofAsset, OutputAsset.derive, hname]
    exact congrArg Path.mk hjoin
  rw [hwritten raw, hwritten raw'] at h ⊢
  rw [Path.eq_of_same_append (by decide)
    (Utf8.separator_notMem_encode (OutputAsset.baseName_plain raw))
    (Utf8.separator_notMem_encode (OutputAsset.baseName_plain raw')) h]

end CopyJob

end StyleAssets
