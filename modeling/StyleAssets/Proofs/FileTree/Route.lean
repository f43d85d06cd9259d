import StyleAssets.FileTree.Change

/-!
# The way of a look-up

A look-up takes its steps one after the other, and each of them asks the tree at few locations. What
stands anywhere else does not matter to it.

* `FileTree.Move`, `FileTree.move` — one step of a look-up; `follow_eq` says that following steps
  is taking one after the other.
* `FileTree.route` — the locations that a look-up asks for; `follow_congr` says that only they
  matter.
* `FileTree.takes_of_follow_absent` — there is room where a look-up ends at a name without an entry.
* `Disk.route` — the same for a path; `get?_of_find`, `hasRoom_of_aim`.
-/

namespace StyleAssets

/-- There is no separator within a step. -/
theorem Path.not_mem_step {p : Path} {step : Name} (h : step ∈ p.steps) :
    separator ∉ step := by
  obtain hname | hslash := List.mem_append.1 h
  · exact not_mem_of_mem_splitOn (List.mem_filter.1 hname).1
  · split at hslash
    · rw [List.mem_singleton.1 hslash]
      exact List.not_mem_nil
    · cases hslash

namespace FileTree

/-- What one step of a look-up comes to: it is over, or it goes on. -/
inductive Move where
  | stop (result : Except FileError Destination)
  | go (links : Nat) (position : Position) (steps : List Name)

/-- Why a name is not looked up in a directory, if it is not. -/
def refusal? (purpose : Purpose) (position : Position) (name : Name) (rest : List Name) :
    Option FileError :=
  if purpose = .target ∧ rest = [[]] then some .isDirectory
  else if position.removed ≠ 0 then some .notFound
  else if longestName < name.length then some .nameTooLong
  else if purpose = .location ∧ (Location.path (position.place ++ [name])).isTooLong then
    some .nameTooLong
  else none

/-- Where a look-up goes from a directory by way of a name, given what stands there. -/
def arrive (purpose : Purpose) (links : Nat) (place : Location) (name : Name) (rest : List Name) :
    Option Entry → Move
  | none => .stop (if rest = [] then .ok (.absent place name) else .error .notFound)
  | some (.link target) =>
    if purpose = .link ∧ rest = [] then .stop (.ok (.entry ⟨place ++ [name], 0⟩ (.link target)))
    else match links with
      | 0 => .stop (.error .tooManyLinks)
      | links + 1 =>
        if target.bytes = [] then .stop (.error .notFound)
        else .go links ⟨if target.isAbsolute then [] else place, 0⟩ (target.steps ++ rest)
  | some _ => .go links ⟨place ++ [name], 0⟩ rest

/-- One step of a look-up. -/
def move (t : FileTree) (purpose : Purpose) (links : Nat) (position : Position) :
    List Name → Move
  | [] => match t.at? position with
    | some entry => .stop (.ok (.entry position entry))
    | none => .stop (.error .notFound)
  | name :: rest => match t.at? position with
    | some .directory =>
      if name = [] ∨ name = [Path.dot] then .go links position rest
      else if name = [Path.dot, Path.dot] then .go links position.parent rest
      else match refusal? purpose position name rest with
        | some e => .stop (.error e)
        | none =>
          arrive purpose links position.place name rest (t.get? (position.place ++ [name]))
    | some _ => .stop (.error .notDirectory)
    | none => .stop (.error .notFound)

/-- What a look-up comes to after one step. -/
def Move.result (t : FileTree) (purpose : Purpose) : Move → Except FileError Destination
  | stop result => result
  | go links position steps => t.follow purpose links position steps

variable {t t' : FileTree} {purpose : Purpose} {links : Nat} {position : Position}
  {steps : List Name}

theorem follow_eq (t : FileTree) (purpose : Purpose) (links : Nat) (position : Position)
    (steps : List Name) :
    t.follow purpose links position steps =
      (t.move purpose links position steps).result t purpose := by
  rw [follow.eq_def]
  cases steps with
  | nil =>
    simp only [move]
    cases t.at? position <;> rfl
  | cons name rest =>
    simp only [move, refusal?]
    cases t.at? position with
    | none => rfl
    | some here =>
      cases here with
      | file file => rfl
      | link target => rfl
      | directory =>
        dsimp only
        iterate 6
          split
          · rfl
        cases t.get? (position.place ++ [name]) with
        | none => simp only [arrive]; split <;> rfl
        | some entry =>
          cases entry with
          | link target =>
            simp only [arrive]
            split
            · rfl
            · cases links with
              | zero => rfl
              | succ links =>
                simp only
                split <;> rfl
          | directory => rfl
          | file file => rfl

/-- The last name of a look-up leads to what stands there, unless that is a link. -/
theorem result_arrive {place : Location} {name : Name} {entry : Entry} (purpose : Purpose)
    (links : Nat) (h : t.get? (place ++ [name]) = some entry)
    (hlink : ∀ target, entry ≠ .link target) :
    (arrive purpose links place name [] (some entry)).result t purpose =
      .ok (.entry ⟨place ++ [name], 0⟩ entry) := by
  have hgo : arrive purpose links place name [] (some entry) =
      .go links ⟨place ++ [name], 0⟩ [] := by
    cases entry with
    | link target => exact absurd rfl (hlink target)
    | directory => rfl
    | file file => rfl
  rw [hgo, Move.result, follow_eq, move, at?, if_pos rfl, h]
  rfl

/-- A look-up that goes on has fewer links or fewer steps before it. -/
theorem move_lt {links' : Nat} {position' : Position} {steps' : List Name}
    (h : t.move purpose links position steps = .go links' position' steps') :
    links' < links ∨ links' = links ∧ steps'.length < steps.length := by
  cases steps with
  | nil =>
    simp only [move] at h
    split at h <;> cases h
  | cons name rest =>
    have hshorter : rest.length < (name :: rest).length := Nat.lt_succ_self _
    simp only [move] at h
    split at h
    · split at h
      · cases h
        exact .inr ⟨rfl, hshorter⟩
      split at h
      · cases h
        exact .inr ⟨rfl, hshorter⟩
      split at h
      · cases h
      unfold arrive at h
      split at h
      · cases h
      · split at h
        · cases h
        · split at h
          · cases h
          · split at h
            · cases h
            · cases h
              exact .inl (Nat.lt_succ_self _)
      · cases h
        exact .inr ⟨rfl, hshorter⟩
    · cases h
    · cases h

/-- Where looking at a position asks the tree. A removed directory is in no tree. -/
def asked (p : Position) : List Location := if p.removed = 0 then [p.place] else []

/-- Where one step asks the tree. -/
def looks (t : FileTree) (purpose : Purpose) (position : Position) (steps : List Name) :
    List Location :=
  asked position ++ match t.at? position, steps with
  | some .directory, name :: rest =>
    if name = [] ∨ name = [Path.dot] ∨ name = [Path.dot, Path.dot] ∨
      (refusal? purpose position name rest).isSome then []
    else [position.place ++ [name]]
  | _, _ => []

/-- The locations at which a look-up asks the tree. -/
def route (t : FileTree) (purpose : Purpose) (links : Nat) (position : Position)
    (steps : List Name) : List Location :=
  t.looks purpose position steps ++
    match _h : t.move purpose links position steps with
    | .stop _ => []
    | .go links position steps => t.route purpose links position steps
termination_by (links, steps.length)
decreasing_by
  rw [Prod.lex_def]
  exact move_lt (by assumption)

theorem at?_congr (h : ∀ x ∈ asked position, t'.get? x = t.get? x) :
    t'.at? position = t.at? position := by
  unfold at?
  split
  · exact h _ (by simp [asked, *])
  · rfl

theorem move_congr (h : ∀ x ∈ t.looks purpose position steps, t'.get? x = t.get? x) :
    t'.move purpose links position steps = t.move purpose links position steps := by
  have hat : t'.at? position = t.at? position :=
    at?_congr fun x hx => h x (List.mem_append_left _ hx)
  cases steps with
  | nil => simp only [move, hat]
  | cons name rest =>
    simp only [move, hat]
    split
    · rename_i hdirectory
      split
      · rfl
      split
      · rfl
      split
      · rfl
      rename_i hdot hparent _ hrefusal
      refine congrArg _ (h _ (List.mem_append_right _ ?_))
      obtain ⟨hempty, hdot⟩ := not_or.1 hdot
      simp [hdirectory, hempty, hdot, hparent, hrefusal]
    · rfl
    · rfl

theorem mem_route_of_go {links' : Nat} {position' : Position} {steps' : List Name} {x : Location}
    (hmove : t.move purpose links position steps = .go links' position' steps')
    (hx : x ∈ t.route purpose links' position' steps') :
    x ∈ t.route purpose links position steps := by
  rw [route]
  refine List.mem_append_right _ ?_
  split
  · simp_all
  · simp_all

/-- **A look-up depends only on what stands on its way.** -/
theorem follow_congr {links : Nat} {position : Position} {steps : List Name}
    (h : ∀ x ∈ t.route purpose links position steps, t'.get? x = t.get? x) :
    t'.follow purpose links position steps = t.follow purpose links position steps := by
  have hlooks : ∀ x ∈ t.looks purpose position steps, t'.get? x = t.get? x := by
    intro x hx
    refine h x ?_
    rw [route]
    exact List.mem_append_left _ hx
  rw [follow_eq t', follow_eq t, move_congr hlooks]
  cases hmove : t.move purpose links position steps with
  | stop result => rfl
  | go links' position' steps' => exact follow_congr fun x hx => h x (mem_route_of_go hmove hx)
termination_by (links, steps.length)
decreasing_by
  rw [Prod.lex_def]
  exact move_lt hmove

/-! ## Where a look-up ends -/

theorem get?_of_at? {p : Position} {entry : Entry} (h : t.at? p = some entry)
    (hfile : entry ≠ .directory) : t.get? p.place = some entry ∧ p.place ∈ asked p := by
  unfold at? at h
  split at h
  · exact ⟨h, by simp [asked, *]⟩
  · cases h
    exact absurd rfl hfile

/-- What a step by way of a name can do. -/
theorem move_cons_cases (t : FileTree) (purpose : Purpose) (links : Nat) (position : Position)
    (name : Name) (rest : List Name) :
    (∃ position', t.move purpose links position (name :: rest) = .go links position' rest) ∨
    (∃ e, t.move purpose links position (name :: rest) = .stop (.error e)) ∨
    (position.place ++ [name] ∈ t.looks purpose position (name :: rest) ∧
      t.move purpose links position (name :: rest) =
        arrive purpose links position.place name rest (t.get? (position.place ++ [name]))) := by
  simp only [move]
  split
  · rename_i hdirectory
    split
    · exact .inl ⟨_, rfl⟩
    split
    · exact .inl ⟨_, rfl⟩
    split
    · exact .inr (.inl ⟨_, rfl⟩)
    · rename_i hdot hparent _ hrefusal
      obtain ⟨hempty, hdot⟩ := not_or.1 hdot
      exact .inr (.inr ⟨List.mem_append_right _ (by simp [*]), rfl⟩)
  · exact .inr (.inl ⟨_, rfl⟩)
  · exact .inr (.inl ⟨_, rfl⟩)

/-- Only a look-up for a link ends at a name, with the link that stands there. -/
theorem link_of_move_cons {name : Name} {rest : List Name} {p : Position} {entry : Entry}
    (h : t.move purpose links position (name :: rest) = .stop (.ok (.entry p entry))) :
    purpose = .link ∧ p = ⟨position.place ++ [name], 0⟩ ∧ t.get? p.place = some entry ∧
      p.place ∈ t.looks purpose position (name :: rest) := by
  obtain ⟨_, hgo⟩ | ⟨_, herror⟩ | ⟨hlooks, harrive⟩ :=
    t.move_cons_cases purpose links position name rest
  · rw [hgo] at h
    cases h
  · rw [herror] at h
    cases h
  · rw [harrive] at h
    unfold arrive at h
    split at h
    · split at h <;> cases h
    · rename_i hlink
      split at h
      · rename_i hpurpose
        cases h
        exact ⟨hpurpose.1, rfl, hlink, hlooks⟩
      · split at h
        · cases h
        · split at h <;> cases h
    · cases h

/-- A step that ends at an entry has asked for it. -/
theorem get?_of_move_entry {p : Position} {entry : Entry} (hfile : entry ≠ .directory)
    (h : t.move purpose links position steps = .stop (.ok (.entry p entry))) :
    t.get? p.place = some entry ∧ p.place ∈ t.looks purpose position steps := by
  cases steps with
  | nil =>
    simp only [move] at h
    split at h
    · cases h
      obtain ⟨hget, hasked⟩ := get?_of_at? ‹_› hfile
      exact ⟨hget, List.mem_append_left _ hasked⟩
    · cases h
  | cons name rest => exact (link_of_move_cons h).2.2

/-- A step that ends at a name without an entry has asked for it. -/
theorem get?_of_move_absent {place : Location} {name : Name}
    (h : t.move purpose links position steps = .stop (.ok (.absent place name))) :
    t.get? (place ++ [name]) = none ∧ place ++ [name] ∈ t.looks purpose position steps ∧
      ∃ rest, steps = name :: rest ∧ place = position.place := by
  cases steps with
  | nil =>
    simp only [move] at h
    split at h <;> cases h
  | cons name' rest =>
    obtain ⟨_, hgo⟩ | ⟨_, herror⟩ | ⟨hlooks, harrive⟩ :=
      t.move_cons_cases purpose links position name' rest
    · rw [hgo] at h
      cases h
    · rw [herror] at h
      cases h
    · rw [harrive] at h
      unfold arrive at h
      split at h
      · rename_i hnone
        split at h
        · cases h
          exact ⟨hnone, hlooks, rest, rfl, rfl⟩
        · cases h
      · split at h
        · cases h
        · split at h
          · cases h
          · split at h <;> cases h
      · cases h

/-- A property of all ends of look-ups, if it holds where one step ends them and goes back over
those that go on. -/
theorem follow_induction {motive : Nat → Position → List Name → Except FileError Destination → Prop}
    (stop : ∀ links position steps result,
      t.move purpose links position steps = .stop result → motive links position steps result)
    (go : ∀ links position steps links' position' steps' result,
      t.move purpose links position steps = .go links' position' steps' →
      motive links' position' steps' result → motive links position steps result)
    (links : Nat) (position : Position) (steps : List Name) :
    motive links position steps (t.follow purpose links position steps) := by
  rw [follow_eq]
  cases hmove : t.move purpose links position steps with
  | stop result => exact stop links position steps result hmove
  | go links' position' steps' =>
    exact go _ _ _ _ _ _ _ hmove (follow_induction stop go links' position' steps')
termination_by (links, steps.length)
decreasing_by
  rw [Prod.lex_def]
  exact move_lt hmove

theorem looks_subset_route {x : Location} (h : x ∈ t.looks purpose position steps) :
    x ∈ t.route purpose links position steps := by
  rw [route]
  exact List.mem_append_left _ h

/-- What a look-up ends at stands there. -/
theorem at?_of_follow_entry {p : Position} {entry : Entry}
    (h : t.follow purpose links position steps = .ok (.entry p entry)) : t.at? p = some entry := by
  revert h
  refine follow_induction (motive := fun links position steps result =>
    result = .ok (.entry p entry) → t.at? p = some entry)
    (fun links position steps result hmove h => ?_)
    (fun links position steps links' position' steps' result hmove ih h => ih h)
    links position steps
  subst h
  cases steps with
  | nil =>
    simp only [move] at hmove
    split at hmove
    · cases hmove
      assumption
    · cases hmove
  | cons name rest =>
    obtain ⟨-, rfl, hget, -⟩ := link_of_move_cons hmove
    exact hget

/-- A look-up that ends at an entry has asked for it. -/
theorem get?_of_follow_entry {p : Position} {entry : Entry} (hfile : entry ≠ .directory)
    (h : t.follow purpose links position steps = .ok (.entry p entry)) :
    t.get? p.place = some entry ∧ p.place ∈ t.route purpose links position steps := by
  revert h
  refine follow_induction (motive := fun links position steps result =>
    result = .ok (.entry p entry) →
      t.get? p.place = some entry ∧ p.place ∈ t.route purpose links position steps)
    (fun links position steps result hmove h => ?_)
    (fun links position steps links' position' steps' result hmove ih h => ?_) links position steps
  · obtain ⟨hget, hlooks⟩ := get?_of_move_entry hfile (h ▸ hmove)
    exact ⟨hget, looks_subset_route hlooks⟩
  · obtain ⟨hget, hroute⟩ := ih h
    exact ⟨hget, mem_route_of_go hmove hroute⟩

/-- A look-up that ends at a name without an entry has asked for it. -/
theorem get?_of_follow_absent {place : Location} {name : Name}
    (h : t.follow purpose links position steps = .ok (.absent place name)) :
    t.get? (place ++ [name]) = none ∧
      place ++ [name] ∈ t.route purpose links position steps := by
  revert h
  refine follow_induction (motive := fun links position steps result =>
    result = .ok (.absent place name) →
      t.get? (place ++ [name]) = none ∧
        place ++ [name] ∈ t.route purpose links position steps)
    (fun links position steps result hmove h => ?_)
    (fun links position steps links' position' steps' result hmove ih h => ?_) links position steps
  · obtain ⟨hget, hlooks, -⟩ := get?_of_move_absent (h ▸ hmove)
    exact ⟨hget, looks_subset_route hlooks⟩
  · obtain ⟨hget, hroute⟩ := ih h
    exact ⟨hget, mem_route_of_go hmove hroute⟩

/-! ## Room for an entry -/

theorem removed_of_refusal? {name : Name} {rest : List Name}
    (h : refusal? purpose position name rest = none) : position.removed = 0 := by
  unfold refusal? at h
  split at h
  · cases h
  split at h
  · cases h
  · simp_all

/-- There are no separators in the steps of a look-up that goes on. -/
theorem plain_of_go {links' : Nat} {position' : Position} {steps' : List Name}
    (h : t.move purpose links position steps = .go links' position' steps')
    (hsteps : ∀ step ∈ steps, Path.separator ∉ step) : ∀ step ∈ steps', Path.separator ∉ step := by
  cases steps with
  | nil =>
    simp only [move] at h
    split at h <;> cases h
  | cons name rest =>
    have hrest := (List.forall_mem_cons.1 hsteps).2
    obtain ⟨_, hgo⟩ | ⟨_, herror⟩ | ⟨-, harrive⟩ :=
      t.move_cons_cases purpose links position name rest
    · rw [hgo] at h
      cases h
      exact hrest
    · rw [herror] at h
      cases h
    · rw [harrive] at h
      unfold arrive at h
      split at h
      · cases h
      · split at h
        · cases h
        split at h
        · cases h
        split at h
        · cases h
        · cases h
          exact List.forall_mem_append.2 ⟨fun _ => Path.not_mem_step, hrest⟩
      · cases h
        exact hrest

theorem takes_of_mem_looks {name : Name} {rest : List Name}
    (h : position.place ++ [name] ∈ t.looks purpose position (name :: rest))
    (hname : Path.separator ∉ name) (hnone : t.get? (position.place ++ [name]) = none) :
    t.Takes (position.place ++ [name]) := by
  obtain hasked | hnext := List.mem_append.1 h
  · unfold asked at hasked
    split at hasked
    · simp at hasked
    · cases hasked
  · split at hnext
    · rename_i hat heq
      cases heq
      split at hnext
      · cases hnext
      rename_i hask
      obtain ⟨hempty, hdot, hparent, hrefusal⟩ : ¬name = [] ∧ ¬name = [Path.dot] ∧
          ¬name = [Path.dot, Path.dot] ∧ ¬(refusal? purpose position name rest).isSome := by
        simpa only [not_or] using hask
      have hremoved := removed_of_refusal? (Option.not_isSome_iff_eq_none.1 hrefusal)
      rw [at?, if_pos hremoved] at hat
      exact takes_concat hat ⟨hempty, hdot, hparent, hname⟩ hnone
    · cases hnext

/-- **There is room where a look-up ends at a name without an entry.** -/
theorem takes_of_follow_absent {place : Location} {name : Name}
    (h : t.follow purpose links position steps = .ok (.absent place name))
    (hsteps : ∀ step ∈ steps, Path.separator ∉ step) : t.Takes (place ++ [name]) := by
  revert h hsteps
  refine follow_induction (motive := fun links position steps result =>
    result = .ok (.absent place name) → (∀ step ∈ steps, Path.separator ∉ step) →
      t.Takes (place ++ [name]))
    (fun links position steps result hmove h hsteps => ?_)
    (fun links position steps links' position' steps' result hmove ih h hsteps =>
      ih h (plain_of_go hmove hsteps)) links position steps
  subst h
  obtain ⟨hnone, hlooks, rest, rfl, rfl⟩ := get?_of_move_absent hmove
  exact takes_of_mem_looks hlooks (hsteps _ List.mem_cons_self) hnone

end FileTree

/-! ## Paths -/

namespace Disk

variable {d d' : Disk} {purpose : Purpose} {p : Path}

/-- A path that is looked up at all. -/
def Admits (purpose : Purpose) (p : Path) : Prop :=
  0 ∉ p.bytes ∧ p.bytes ≠ [] ∧ ¬(purpose ≠ .location ∧ p.isTooLong)

instance (purpose : Purpose) (p : Path) : Decidable (Admits purpose p) :=
  inferInstanceAs (Decidable (_ ∧ _ ∧ _))

/-- The locations that a path resolves through or to: those at which looking it up asks the tree. -/
def route (d : Disk) (purpose : Purpose) (p : Path) : List Location :=
  if Admits purpose p then d.tree.route purpose mostLinks (d.origin p) p.steps else []

theorem lead_of_admits (h : Admits purpose p) :
    d.lead purpose p = d.tree.follow purpose mostLinks (d.origin p) p.steps := by
  obtain ⟨hnul, hempty, hlong⟩ := h
  rw [lead, leadBy, if_neg hnul, if_neg hempty, if_neg hlong]

theorem lead_of_not_admits (h : ¬Admits purpose p) (d d' : Disk) :
    d.lead purpose p = d'.lead purpose p ∧ ∃ e, d.lead purpose p = .error e := by
  simp only [lead, leadBy]
  by_cases hnul : 0 ∈ p.bytes
  · simp [hnul]
  · by_cases hempty : p.bytes = []
    · simp [hempty]
    · by_cases hlong : purpose ≠ .location ∧ p.isTooLong
      · simp [hnul, hempty, hlong]
      · exact absurd ⟨hnul, hempty, hlong⟩ h

theorem admits_of_leadBy {steps : List Name} {destination : Destination}
    (h : d.leadBy purpose p steps = .ok destination) : Admits purpose p := by
  unfold leadBy at h
  split at h
  · cases h
  split at h
  · cases h
  split at h
  · cases h
  · exact ⟨‹_›, ‹_›, ‹_›⟩

/-- **Looking up a path depends only on what stands on its way.** -/
theorem lead_congr (hcwd : d'.cwd = d.cwd)
    (h : ∀ x ∈ d.route purpose p, d'.tree.get? x = d.tree.get? x) :
    d'.lead purpose p = d.lead purpose p := by
  by_cases hadmits : Admits purpose p
  · rw [route, if_pos hadmits] at h
    rw [lead_of_admits hadmits, lead_of_admits hadmits, origin, origin, hcwd]
    exact FileTree.follow_congr h
  · exact (lead_of_not_admits hadmits d' d).1

theorem findFor_congr (hcwd : d'.cwd = d.cwd)
    (h : ∀ x ∈ d.route purpose p, d'.tree.get? x = d.tree.get? x) :
    d'.findFor purpose p = d.findFor purpose p := by
  rw [findFor, lead_congr hcwd h]
  rfl

theorem find_congr (hcwd : d'.cwd = d.cwd)
    (h : ∀ x ∈ d.route .entry p, d'.tree.get? x = d.tree.get? x) : d'.find p = d.find p :=
  findFor_congr hcwd h

theorem aim_congr (hcwd : d'.cwd = d.cwd)
    (h : ∀ x ∈ d.route .target p, d'.tree.get? x = d.tree.get? x) : d'.aim p = d.aim p := by
  rw [aim, lead_congr hcwd h]
  rfl

/-- What a path denotes stands on its way. -/
theorem get?_of_lead_entry {position : Position} {entry : Entry} (hfile : entry ≠ .directory)
    (h : d.lead purpose p = .ok (.entry position entry)) :
    d.tree.get? position.place = some entry ∧ position.place ∈ d.route purpose p := by
  have hadmits := admits_of_leadBy h
  rw [lead_of_admits hadmits] at h
  rw [route, if_pos hadmits]
  exact FileTree.get?_of_follow_entry hfile h

theorem get?_of_lead_absent {place : Location} {name : Name}
    (h : d.lead purpose p = .ok (.absent place name)) :
    d.tree.get? (place ++ [name]) = none ∧ place ++ [name] ∈ d.route purpose p := by
  have hadmits := admits_of_leadBy h
  rw [lead_of_admits hadmits] at h
  rw [route, if_pos hadmits]
  exact FileTree.get?_of_follow_absent h

theorem at?_of_lead_entry {position : Position} {entry : Entry}
    (h : d.lead purpose p = .ok (.entry position entry)) : d.tree.at? position = some entry := by
  rw [lead_of_admits (admits_of_leadBy h)] at h
  exact FileTree.at?_of_follow_entry h

theorem lead_of_findFor {position : Position} {entry : Entry}
    (h : d.findFor purpose p = .ok (position, entry)) :
    d.lead purpose p = .ok (.entry position entry) := by
  unfold findFor at h
  split at h
  · cases h
    assumption
  · cases h
  · cases h

theorem lead_of_find {position : Position} {entry : Entry} (h : d.find p = .ok (position, entry)) :
    d.lead .entry p = .ok (.entry position entry) :=
  lead_of_findFor h

/-- The file that a path denotes stands on its way. -/
theorem get?_of_find {position : Position} {file : File}
    (h : d.find p = .ok (position, .file file)) :
    d.tree.get? position.place = some (.file file) ∧ position.place ∈ d.route .entry p :=
  have hfile : Entry.file file ≠ .directory := nofun
  get?_of_lead_entry hfile (lead_of_find h)

theorem admits_of_aim {place : Location} (h : d.aim p = .ok place) : Admits .target p := by
  unfold aim at h
  split at h
  · exact admits_of_leadBy ‹_›
  · cases h
  · exact admits_of_leadBy ‹_›
  · cases h

/-- A file stands at a location, or nothing that keeps a file from being put there. -/
structure HasRoom (d : Disk) (place : Location) : Prop where
  takes : d.tree.Takes place
  file : ∀ entry, d.tree.get? place = some entry → ∃ file, entry = .file file

/-- There is room for a file at the location that writing to a path fills. -/
theorem hasRoom_of_aim {place : Location} (h : d.aim p = .ok place) :
    d.HasRoom place ∧ place ∈ d.route .target p := by
  have hadmits := admits_of_aim h
  unfold aim at h
  split at h
  · rename_i position file hlead
    cases h
    have hfile : Entry.file file ≠ .directory := nofun
    obtain ⟨hget, hroute⟩ := get?_of_lead_entry hfile hlead
    refine ⟨⟨FileTree.takes_of_get? hget hfile, fun entry hentry => ⟨file, ?_⟩⟩, hroute⟩
    rw [hget] at hentry
    exact (Option.some.inj hentry).symm
  · cases h
  · rename_i directory name hlead
    cases h
    obtain ⟨hget, hroute⟩ := get?_of_lead_absent hlead
    rw [lead_of_admits hadmits] at hlead
    exact ⟨⟨FileTree.takes_of_follow_absent hlead fun _ => Path.not_mem_step, by simp [hget]⟩,
      hroute⟩
  · cases h

theorem writable_eq_ok {place : Location} :
    d.writable p = .ok place ↔ d.aim p = .ok place ∧ d.isOpen place = true := by
  rw [writable]
  cases d.aim p with
  | error e => simp [bind, Except.bind]
  | ok other =>
    simp only [bind, Except.bind, pure, Except.pure, Except.ok.injEq]
    split
    · refine ⟨fun h => ?_, fun h => congrArg _ h.1⟩
      cases h
      exact ⟨rfl, ‹_›⟩
    · refine ⟨nofun, ?_⟩
      rintro ⟨rfl, hopen⟩
      contradiction

end Disk

end StyleAssets
