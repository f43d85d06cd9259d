import StyleAssets.FileTree.Mode
import StyleAssets.Path.Basic

/-!
# File trees

A file tree says what stands at each location: a directory, a file, or a symbolic link with its
target. The root is always a directory, and everything else stands in a directory.

* `FileTree.WellFormed` — what makes entries a tree.
* `FileTree.get?` — the view of a tree.
* `FileTree.put` — the tree with one more entry, where the tree takes one (`FileTree.Takes`);
  `get?_put` says what becomes of the view.
* `FileTree.names` — the entries of one directory.
* `FileTree.below` — everything below a location.
-/

namespace StyleAssets

/-- A place in a file tree: the names from the root down to it. -/
abbrev Location := List Name

/-- Each part of a location is a name. -/
def Location.Named (place : Location) : Prop := ∀ name ∈ place, Path.IsStep (.normal name)

instance (place : Location) : Decidable place.Named :=
  inferInstanceAs (Decidable (∀ name ∈ place, Path.IsStep (.normal name)))

/-- What stands at a location. -/
inductive Entry where
  | directory
  | file (file : File)
  | link (target : Path)
  deriving DecidableEq, Repr

namespace FileTree

/-- What some entries say of a location. The root is always a directory. -/
def lookup (entries : List (Location × Entry)) (place : Location) : Option Entry :=
  if place = [] then some .directory
  else (entries.find? (·.1 == place)).map (·.2)

/-- There is at most one entry for each location, and it stands in a directory and has a name. -/
structure WellFormed (entries : List (Location × Entry)) : Prop where
  unique : (entries.map (·.1)).Nodup
  held : ∀ entry ∈ entries, lookup entries entry.1.dropLast = some .directory
  named : ∀ entry ∈ entries, entry.1.Named

theorem wellFormed_iff (entries : List (Location × Entry)) : WellFormed entries ↔
    (entries.map (·.1)).Nodup ∧
      ∀ entry ∈ entries, lookup entries entry.1.dropLast = some .directory ∧ entry.1.Named :=
  ⟨fun h => ⟨h.unique, fun entry hentry => ⟨h.held entry hentry, h.named entry hentry⟩⟩,
    fun h => ⟨h.1, fun entry hentry => (h.2 entry hentry).1,
      fun entry hentry => (h.2 entry hentry).2⟩⟩

instance (entries : List (Location × Entry)) : Decidable (WellFormed entries) :=
  decidable_of_iff _ (wellFormed_iff entries).symm

theorem lookup_put {entries : List (Location × Entry)} {place : Location} (entry : Entry)
    (other : Location) (h : place ≠ []) :
    lookup ((place, entry) :: entries.filter (·.1 != place)) other =
      if other = place then some entry else lookup entries other := by
  by_cases he : other = place
  · subst he
    simp [lookup, h]
  by_cases ho : other = []
  · simp [lookup, ho, Ne.symm h]
  have hne : (place == other) = false := by simpa using Ne.symm he
  simp only [lookup, ho, he, if_false, List.find?_cons, hne, List.find?_filter]
  -- an entry for another location is not one of those taken out
  congr 2
  funext e
  by_cases hother : e.1 = other
  · simp [hother, he]
  · simp [hother]

theorem lookup_filter {entries : List (Location × Entry)} {place : Location}
    (keeps : Location → Bool) (h : keeps place = true) :
    lookup (entries.filter (keeps ·.1)) place = lookup entries place := by
  simp only [lookup, List.find?_filter]
  congr 3
  funext e
  by_cases he : e.1 = place
  · simp [he, h]
  · simp [he]

end FileTree

/-- Entries by location. -/
structure FileTree where
  entries : List (Location × Entry)
  wellFormed : FileTree.WellFormed entries := by decide +kernel

namespace FileTree

/-- The tree that holds nothing but its root. -/
def empty : FileTree where
  entries := []

/-- What stands at a location. -/
def get? (t : FileTree) (place : Location) : Option Entry := lookup t.entries place

/-- An entry can be put at a location if its directory is there and no directory gives way. -/
structure Takes (t : FileTree) (place : Location) : Prop where
  named : place.Named
  held : t.get? place.dropLast = some .directory
  free : t.get? place ≠ some .directory

instance (t : FileTree) (place : Location) : Decidable (t.Takes place) :=
  decidable_of_iff (place.Named ∧ t.get? place.dropLast = some .directory ∧
    t.get? place ≠ some .directory) ⟨fun h => ⟨h.1, h.2.1, h.2.2⟩, fun h => ⟨h.1, h.2, h.3⟩⟩

theorem Takes.ne_nil {t : FileTree} {place : Location} (h : t.Takes place) : place ≠ [] := by
  rintro rfl
  exact h.free rfl

/-- The tree with `entry` at a location, if it can be put there. -/
def put (t : FileTree) (place : Location) (entry : Entry) : FileTree :=
  if h : t.Takes place then
    { entries := (place, entry) :: t.entries.filter (·.1 != place)
      wellFormed := {
        unique := by
          refine List.nodup_cons.2 ⟨by simp, ?_⟩
          exact (List.filter_sublist.map _).nodup t.wellFormed.unique
        held := by
          -- a directory stays one, for it is not what gives way
          have hkept : ∀ above, t.get? above = some .directory →
              lookup ((place, entry) :: t.entries.filter (·.1 != place)) above =
                some .directory := by
            intro above habove
            rw [lookup_put entry above h.ne_nil, if_neg (by rintro rfl; exact h.free habove)]
            exact habove
          rintro other hother
          obtain rfl | hother := List.mem_cons.1 hother
          · exact hkept _ h.held
          · exact hkept _ (t.wellFormed.held other (List.mem_filter.1 hother).1)
        named := by
          rintro other hother
          obtain rfl | hother := List.mem_cons.1 hother
          · exact h.named
          · exact t.wellFormed.named other (List.mem_filter.1 hother).1 } }
  else t

/-- The tree without a location and all that lies below it. -/
def erase (t : FileTree) (place : Location) : FileTree where
  entries := t.entries.filter (!place.isPrefixOf ·.1)
  wellFormed := {
    unique := (List.filter_sublist.map _).nodup t.wellFormed.unique
    held := by
      intro entry hentry
      obtain ⟨hmem, hkept⟩ := List.mem_filter.1 hentry
      have habove : (!place.isPrefixOf entry.1.dropLast) = true := by
        simp only [Bool.not_eq_true', ← Bool.not_eq_true, List.isPrefixOf_iff_prefix] at hkept ⊢
        exact fun hle => hkept (hle.trans (List.dropLast_prefix _))
      rw [lookup_filter (fun other => !place.isPrefixOf other) habove]
      exact t.wellFormed.held entry hmem
    named := fun entry hentry => t.wellFormed.named entry (List.mem_filter.1 hentry).1 }

/-- The way down from one location to another, if that lies strictly below. -/
def way? : Location → Location → Option Location
  | [], [] => none
  | [], name :: rest => some (name :: rest)
  | _ :: _, [] => none
  | name :: place, name' :: other => if name = name' then way? place other else none

/-- All entries strictly below a location, by their way from there. -/
def below (t : FileTree) (place : Location) : List (Location × Entry) :=
  t.entries.filterMap fun (other, entry) => (way? place other).map (·, entry)

/-- The names of the entries of a directory. -/
def names (t : FileTree) (place : Location) : List Name :=
  (t.below place).filterMap fun
    | ([name], _) => some name
    | _ => none

/-- The entries below a location that are new or different from an earlier tree. -/
def changesSince (t earlier : FileTree) (place : Location) : List (Location × Entry) :=
  (t.below place).filter fun (way, entry) => earlier.get? (place ++ way) != some entry

theorem way?_eq_some {place other way : Location} :
    way? place other = some way ↔ other = place ++ way ∧ way ≠ [] := by
  induction place, other using way?.induct with
  | case1 => simp [way?]
  | case2 name rest =>
    simp only [way?, Option.some.injEq, List.nil_append, iff_self_and]
    rintro rfl
    simp
  | case3 => simp [way?]
  | case4 name place other ih => simp [way?, ih]
  | case5 name place name' other hne => simp [way?, hne, Ne.symm hne]

theorem mem_below {t : FileTree} {place way : Location} {entry : Entry} :
    (way, entry) ∈ t.below place ↔ (place ++ way, entry) ∈ t.entries ∧ way ≠ [] := by
  simp only [below, List.mem_filterMap]
  constructor
  · rintro ⟨⟨other, entry'⟩, hm, he⟩
    obtain ⟨way', hw, he⟩ := Option.map_eq_some_iff.1 he
    cases he
    obtain ⟨rfl, hne⟩ := way?_eq_some.1 hw
    exact ⟨hm, hne⟩
  · rintro ⟨hm, hne⟩
    exact ⟨_, hm, Option.map_eq_some_iff.2 ⟨way, way?_eq_some.2 ⟨rfl, hne⟩, rfl⟩⟩

theorem mem_names {t : FileTree} {place : Location} {name : Name} :
    name ∈ t.names place ↔ ∃ entry, (place ++ [name], entry) ∈ t.entries := by
  simp only [names, List.mem_filterMap]
  constructor
  · rintro ⟨⟨way, entry⟩, hm, he⟩
    split at he
    · cases he
      rename_i heq
      cases heq
      exact ⟨_, (mem_below.1 hm).1⟩
    · cases he
  · rintro ⟨entry, hm⟩
    exact ⟨([name], entry), mem_below.2 ⟨hm, by simp⟩, rfl⟩

variable {t : FileTree} {place other : Location} {entry : Entry}

theorem mem_entries_of_get? (h : t.get? place = some entry) (hplace : place ≠ []) :
    (place, entry) ∈ t.entries := by
  rw [get?, lookup, if_neg hplace] at h
  obtain ⟨⟨other, entry'⟩, hfind, rfl⟩ := Option.map_eq_some_iff.1 h
  obtain rfl : other = place := by simpa using List.find?_some hfind
  exact List.mem_of_find?_eq_some hfind

theorem named_of_get? (h : t.get? place = some entry) : place.Named := by
  by_cases hplace : place = []
  · subst hplace
    exact List.forall_mem_nil _
  · exact t.wellFormed.named _ (mem_entries_of_get? h hplace)

/-- What there is stands in a directory. -/
theorem directory_of_get? (h : t.get? place = some entry) :
    t.get? place.dropLast = some .directory := by
  by_cases hplace : place = []
  · subst hplace
    rfl
  · exact t.wellFormed.held _ (mem_entries_of_get? h hplace)

/-- There is nothing in what is not there. -/
theorem get?_concat_of_none (h : t.get? place = none) (name : Name) :
    t.get? (place ++ [name]) = none := by
  cases hget : t.get? (place ++ [name]) with
  | none => rfl
  | some entry =>
    have hdirectory := directory_of_get? hget
    rw [List.dropLast_concat, h] at hdirectory
    cases hdirectory

theorem takes_of_get? (h : t.get? place = some entry) (hentry : entry ≠ .directory) :
    t.Takes place where
  named := named_of_get? h
  held := directory_of_get? h
  free := by simpa [h] using hentry

theorem takes_concat {name : Name} (h : t.get? place = some .directory)
    (hname : Path.IsStep (.normal name)) (hnone : t.get? (place ++ [name]) = none) :
    t.Takes (place ++ [name]) where
  named := List.forall_mem_append.2 ⟨named_of_get? h, List.forall_mem_singleton.2 hname⟩
  held := by rwa [List.dropLast_concat]
  free := by simp [hnone]

theorem get?_put (h : t.Takes place) (other : Location) (entry : Entry) :
    (t.put place entry).get? other = if other = place then some entry else t.get? other := by
  rw [put, dif_pos h]
  exact lookup_put entry other h.ne_nil

theorem get?_put_of_ne (h : other ≠ place) (entry : Entry) :
    (t.put place entry).get? other = t.get? other := by
  by_cases ht : t.Takes place
  · rw [get?_put ht, if_neg h]
  · rw [put, dif_neg ht]

/-- What is no directory takes no room from other entries. -/
theorem Takes.put (h : t.Takes place) (hentry : entry ≠ .directory) (other : Location) :
    (t.put other entry).Takes place := by
  by_cases ht : t.Takes other
  · have hother : place.dropLast ≠ other := by
      rintro rfl
      exact ht.free h.held
    refine ⟨h.named, ?_, ?_⟩
    · rw [get?_put_of_ne hother, h.held]
    · rw [get?_put ht]
      split
      · simpa using hentry
      · exact h.free
  · rwa [FileTree.put, dif_neg ht]

end FileTree

end StyleAssets
