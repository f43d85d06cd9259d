import StyleAssets.FileTree.Walk
import StyleAssets.Proofs.FileTree.Made
import StyleAssets.Proofs.FileTree.RealPath
import StyleAssets.Proofs.Path.Order

/-!
# Which stylesheets are found

A directory stands for the stylesheets below it. Each of them is found by one way down, so no two
are the same, and sorting leaves them in the one order in which they ascend. In which order the
entries of directories come does not matter.

* `Path.down` — the path of what is found by some way from a directory.
* `FileTree.mem_files` — what a walk finds; `FileTree.pairwise_files` says that it is found once.
* `Disk.Listed` — what an argument stands for.
* `Disk.stylesheets_listed` — **main result**.
* `Disk.dotted_sheet_found` — a name that starts with `.` is hidden only if it is text.
-/

namespace StyleAssets

namespace Path

variable {p : Path} {way : Location}

/-- The path of what is found by some way from a directory. -/
def down (p : Path) (way : Location) : Path := way.foldl (fun q name => q.join ⟨name⟩) p

theorem components_down (p : Path) (h : way.Named) :
    (p.down way).components = p.components ++ way.map .normal := by
  induction way generalizing p with
  | nil => exact (List.append_nil _).symm
  | cons name way ih =>
    obtain ⟨hname, hway⟩ := List.forall_mem_cons.1 h
    rw [down, List.foldl_cons]
    refine (ih (p.join ⟨name⟩) hway).trans ?_
    rw [components_join_name p hname, List.append_assoc]
    rfl

end Path

namespace FileTree

variable {t t' : FileTree} {place way : Location} {name : Name} {entry : Entry} {p q : Path}

/-! ## Entries of directories -/

/-- What lies below a place lies in a directory there. -/
theorem directory_of_below (hget : t.get? (place ++ way) = some entry) (hway : way ≠ []) :
    t.get? place = some .directory := by
  induction way using List.reverseRecOn generalizing entry with
  | nil => exact absurd rfl hway
  | append_singleton way name ih =>
    have hdirectory := directory_of_get? hget
    rw [← List.append_assoc, List.dropLast_concat] at hdirectory
    by_cases hnil : way = []
    · rwa [hnil, List.append_nil] at hdirectory
    · exact ih hdirectory hnil

theorem mem_names_of_get? (hget : t.get? (place ++ [name]) = some entry) :
    name ∈ t.names place :=
  mem_names.2 ⟨entry, mem_entries_of_get? hget (by simp)⟩

theorem nodup_names (t : FileTree) (place : Location) : (t.names place).Nodup := by
  have hplaces : t.entries.Pairwise fun entry entry' => entry.1 ≠ entry'.1 :=
    List.pairwise_map.1 t.wellFormed.unique
  rw [names, below, List.Nodup, List.pairwise_filterMap, List.pairwise_filterMap]
  refine hplaces.imp fun hne below hbelow below' hbelow' name hname name' hname' heq => hne ?_
  obtain ⟨way, hway, rfl⟩ := Option.map_eq_some_iff.1 hbelow
  obtain ⟨way', hway', rfl⟩ := Option.map_eq_some_iff.1 hbelow'
  rw [(way?_eq_some.1 hway).1, (way?_eq_some.1 hway').1]
  split at hname <;> cases hname
  split at hname' <;> cases hname'
  -- both ways consist of the same name
  rename_i hsingle _ _ hsingle'
  rw [(Prod.mk.inj hsingle).1, (Prod.mk.inj hsingle').1, heq]

/-! ## A walk -/

/-- A file that a walk finds by some way down: no name on the way is hidden, and no directory has a
path that is too long. -/
structure Finds (t : FileTree) (place : Location) (p : Path) (way : Location) : Prop where
  file : ∃ file, t.get? (place ++ way) = some (.file file)
  shown : ∀ name ∈ way, isHidden name = false
  short : ∀ above, above <+: way → above ≠ way → (p.down above).isTooLong = false

/-- A way down starts with one name. -/
theorem finds_cons_iff : t.Finds place p (name :: way) ↔
    p.isTooLong = false ∧ isHidden name = false ∧
      t.Finds (place ++ [name]) (p.join ⟨name⟩) way := by
  have hplace : place ++ [name] ++ way = place ++ name :: way := by simp
  constructor
  · rintro ⟨hfile, hshown, hshort⟩
    obtain ⟨hname, hway⟩ := List.forall_mem_cons.1 hshown
    have hhere : p.isTooLong = false := hshort [] List.nil_prefix (List.cons_ne_nil _ _).symm
    refine ⟨hhere, hname, hplace ▸ hfile, hway, fun above hfront hne => ?_⟩
    exact hshort (name :: above) (List.cons_prefix_cons.2 ⟨rfl, hfront⟩) (by simpa using hne)
  · rintro ⟨hshort, hname, hfile, hshown, hbelow⟩
    refine ⟨hplace ▸ hfile, List.forall_mem_cons.2 ⟨hname, hshown⟩, fun above hfront hne => ?_⟩
    obtain rfl | ⟨above, rfl, hrest⟩ := List.prefix_cons_iff.1 hfront
    · exact hshort
    · exact hbelow above hrest (by simpa using hne)

/-- A walk finds a file where it stands itself, or something in a directory. -/
theorem Finds.cases (h : t.Finds place p way) :
    way = [] ∧ (∃ file, t.get? place = some (.file file)) ∨
      way ≠ [] ∧ t.get? place = some .directory := by
  obtain ⟨file, hget⟩ := h.file
  by_cases hway : way = []
  · subst hway
    rw [List.append_nil] at hget
    exact .inl ⟨rfl, file, hget⟩
  · exact .inr ⟨hway, directory_of_below hget hway⟩

/-- What a walk finds by way of one name. -/
def filesBy (t : FileTree) (place : Location) (p : Path) (name : Name) : List Path :=
  if isHidden name then []
  else match t.get? (place ++ [name]) with
    | some .directory => t.files (place ++ [name]) (p.join ⟨name⟩)
    | some (.file _) => [p.join ⟨name⟩]
    | _ => []

theorem files_eq (t : FileTree) (place : Location) (p : Path) :
    t.files place p = if p.isTooLong then [] else (t.names place).flatMap (t.filesBy place p) := by
  rw [files]
  split
  · rfl
  · rw [List.flatMap_subtype (g := t.filesBy place p) fun _ _ => rfl, List.unattach_attach]

theorem mem_filesBy
    (hbelow : t.get? (place ++ [name]) = some .directory → ∀ q,
      q ∈ t.files (place ++ [name]) (p.join ⟨name⟩) ↔
        ∃ way, t.Finds (place ++ [name]) (p.join ⟨name⟩) way ∧ q = (p.join ⟨name⟩).down way) :
    q ∈ t.filesBy place p name ↔ isHidden name = false ∧
      ∃ way, t.Finds (place ++ [name]) (p.join ⟨name⟩) way ∧ q = (p.join ⟨name⟩).down way := by
  rw [filesBy]
  split
  · simp [*]
  · rename_i hshown
    simp only [Bool.not_eq_true] at hshown
    simp only [hshown, true_and]
    split
    · exact hbelow ‹_› q
    · rename_i file hget
      rw [List.mem_singleton]
      constructor
      · rintro rfl
        refine ⟨[], ⟨⟨file, by rwa [List.append_nil]⟩, by simp, fun above hfront hne => ?_⟩, rfl⟩
        exact absurd (List.prefix_nil.1 hfront) hne
      · rintro ⟨way, hfinds, rfl⟩
        obtain ⟨rfl, -⟩ | ⟨-, hdirectory⟩ := hfinds.cases
        · rfl
        · rw [hget] at hdirectory
          cases hdirectory
    · rename_i hdirectory hfile
      refine ⟨fun hq => absurd hq List.not_mem_nil, ?_⟩
      rintro ⟨way, hfinds, -⟩
      obtain ⟨-, file, hget⟩ | ⟨-, hget⟩ := hfinds.cases
      · exact absurd hget (hfile file)
      · exact absurd hget hdirectory

/-- **What a walk finds** are the files below, each by a way without hidden names. -/
theorem mem_files {place : Location} {p q : Path}
    (hplace : t.get? place = some .directory) :
    q ∈ t.files place p ↔ ∃ way, t.Finds place p way ∧ q = p.down way := by
  have hby : ∀ name ∈ t.names place, (q ∈ t.filesBy place p name ↔ isHidden name = false ∧
      ∃ way, t.Finds (place ++ [name]) (p.join ⟨name⟩) way ∧ q = (p.join ⟨name⟩).down way) :=
    fun name hname => mem_filesBy fun hdirectory _ => mem_files hdirectory
  rw [files_eq]
  constructor
  · intro hq
    split at hq
    · cases hq
    · rename_i hshort
      obtain ⟨name, hname, hq⟩ := List.mem_flatMap.1 hq
      obtain ⟨hshown, way, hfinds, rfl⟩ := (hby name hname).1 hq
      exact ⟨name :: way, finds_cons_iff.2 ⟨eq_false_of_ne_true hshort, hshown, hfinds⟩, rfl⟩
  · rintro ⟨way, hfinds, rfl⟩
    cases way with
    | nil =>
      obtain ⟨-, file, hget⟩ | ⟨hne, -⟩ := hfinds.cases
      · rw [hplace] at hget
        cases hget
      · exact absurd rfl hne
    | cons name way =>
      obtain ⟨hshort, hshown, hbelow⟩ := finds_cons_iff.1 hfinds
      have hname : name ∈ t.names place := by
        obtain ⟨-, file, hget⟩ | ⟨-, hget⟩ := hbelow.cases
        · exact mem_names_of_get? hget
        · exact mem_names_of_get? hget
      rw [if_neg (by simp [hshort])]
      exact List.mem_flatMap.2 ⟨name, hname, (hby name hname).2 ⟨hshown, way, hbelow, rfl⟩⟩
termination_by (t.below place).length
decreasing_by exact length_below_lt hname

theorem components_of_mem_filesBy (hq : q ∈ t.filesBy place p name) :
    ∃ rest, q.components = p.components ++ .normal name :: rest := by
  obtain ⟨-, way, hfinds, rfl⟩ := (mem_filesBy fun hdirectory _ => mem_files hdirectory).1 hq
  obtain ⟨file, hget⟩ := hfinds.file
  rw [List.append_assoc] at hget
  have hnamed : Location.Named (name :: way) := fun _ hstep =>
    named_of_get? hget _ (List.mem_append_right _ hstep)
  exact ⟨_, Path.components_down p hnamed⟩

/-- **No two files that a walk finds are the same.** -/
theorem pairwise_files {place : Location} {p : Path} :
    (t.files place p).Pairwise fun q r => ¬q.Same r := by
  rw [files_eq]
  split
  · exact .nil
  refine List.pairwise_flatMap.2 ⟨fun name hname => ?_, (nodup_names t place).imp ?_⟩
  · rw [filesBy]
    split
    · exact .nil
    split
    · exact pairwise_files
    · exact List.pairwise_singleton _ _
    · exact .nil
  · intro name name' hne q hq r hr hsame
    obtain ⟨_, hq⟩ := components_of_mem_filesBy hq
    obtain ⟨_, hr⟩ := components_of_mem_filesBy hr
    rw [Path.Same, hq, hr] at hsame
    cases List.append_cancel_left hsame
    exact hne rfl
termination_by (t.below place).length
decreasing_by exact length_below_lt hname

/-! ## The order of entries -/

theorem get?_of_perm (h : t'.entries.Perm t.entries) (place : Location) :
    t'.get? place = t.get? place := by
  rw [get?, get?, lookup, lookup, List.find?_eq_find?_of_perm h]
  rintro entry ⟨hentry, hplace⟩ entry' ⟨hentry', hplace'⟩
  refine List.inj_on_of_nodup_map t'.wellFormed.unique hentry hentry' ?_
  rw [eq_of_beq hplace, eq_of_beq hplace']

theorem Finds.of_get? (hget : ∀ place, t'.get? place = t.get? place) (h : t'.Finds place p way) :
    t.Finds place p way where
  file := hget _ ▸ h.file
  shown := h.shown
  short := h.short

end FileTree

namespace Disk

variable {d : Disk} {t : FileTree} {p q : Path} {paths : List Path} {position : Position}

theorem walkedPath_of_findLink (h : ∀ other target, d.findLink p ≠ .ok (other, .link target)) :
    d.walkedPath p = p := by
  rw [walkedPath]
  split
  · exact absurd ‹_› (h _ _)
  · rfl

/-- What is found below a directory are the stylesheets that a walk finds there. -/
theorem mem_stylesheetsBelow (hfind : d.find p = .ok (position, .directory)) :
    q ∈ d.stylesheetsBelow p ↔ position.removed = 0 ∧
      ∃ way, d.tree.Finds position.place (d.walkedPath p) way ∧
        q = (d.walkedPath p).down way ∧ q.extension? = some stylesheetExtension := by
  obtain ⟨place, removed⟩ := position
  rw [stylesheetsBelow, hfind]
  cases removed with
  | zero =>
    have hplace : d.tree.get? place = some .directory := at?_of_lead_entry (lead_of_find hfind)
    simp only [List.mem_mergeSort, List.mem_filter, FileTree.mem_files hplace, beq_iff_eq,
      true_and]
    constructor
    · rintro ⟨⟨way, hfinds, hq⟩, hstyle⟩
      exact ⟨way, hfinds, hq, hstyle⟩
    · rintro ⟨way, hfinds, hq, hstyle⟩
      exact ⟨⟨way, hfinds, hq⟩, hstyle⟩
  | succ removed => simp

theorem ascending_stylesheetsBelow (d : Disk) (p : Path) :
    Path.Ascending (d.stylesheetsBelow p) := by
  rw [stylesheetsBelow]
  split
  · exact Path.ascending_mergeSort (FileTree.pairwise_files.filter _)
  · exact .nil

theorem stylesheetsBelow_of_not_directory
    (h : ∀ position, d.find p ≠ .ok (position, .directory)) : d.stylesheetsBelow p = [] := by
  rw [stylesheetsBelow]
  split
  · exact absurd ‹_› (h _)
  · rfl

theorem findFor_of_perm (hperm : t.entries.Perm d.tree.entries) (purpose : Purpose) (p : Path) :
    findFor { d with tree := t } purpose p = d.findFor purpose p :=
  findFor_congr rfl fun _ _ => FileTree.get?_of_perm hperm _

/-- **The order of entries does not matter** to what is found below a directory. -/
theorem stylesheetsBelow_of_perm (hperm : t.entries.Perm d.tree.entries) (p : Path) :
    stylesheetsBelow { d with tree := t } p = d.stylesheetsBelow p := by
  have hfind : find { d with tree := t } p = d.find p := findFor_of_perm hperm .entry p
  have hwalked : walkedPath { d with tree := t } p = d.walkedPath p := by
    rw [walkedPath, walkedPath, findLink, findLink, findFor_of_perm hperm]
  have hget := FileTree.get?_of_perm hperm
  by_cases hdirectory : ∃ position, d.find p = .ok (position, .directory)
  · obtain ⟨position, hfound⟩ := hdirectory
    refine (ascending_stylesheetsBelow _ p).eq (ascending_stylesheetsBelow d p) fun q => ?_
    rw [mem_stylesheetsBelow (hfind.trans hfound), mem_stylesheetsBelow hfound, hwalked]
    refine and_congr_right fun _ => exists_congr fun way => and_congr_left fun _ => ?_
    exact ⟨.of_get? hget, .of_get? fun place => (hget place).symm⟩
  · have hnone := not_exists.1 hdirectory
    rw [stylesheetsBelow_of_not_directory hnone, stylesheetsBelow_of_not_directory (hfind ▸ hnone)]

/-- The paths that one path stands for: a directory for the stylesheets below it, which a directory
that has been removed no longer holds, and anything else for itself. -/
structure Listed (d : Disk) (p : Path) (block : List Path) : Prop where
  itself : d.isDirectory p = false → block = [p]
  ascending : d.isDirectory p = true → Path.Ascending block
  below : ∀ position, d.find p = .ok (position, .directory) →
    (∀ other target, d.findLink p ≠ .ok (other, .link target)) →
    ∀ q, q ∈ block ↔ position.removed = 0 ∧ ∃ way, d.tree.Finds position.place p way ∧
      q = p.down way ∧ q.extension? = some stylesheetExtension

theorem listed (d : Disk) (p : Path) :
    d.Listed p (if d.isDirectory p then d.stylesheetsBelow p else [p]) where
  itself hother := by rw [if_neg (ne_true_of_eq_false hother)]
  ascending hdirectory := by
    rw [if_pos hdirectory]
    exact ascending_stylesheetsBelow d p
  below position hfind hlink q := by
    have hdirectory : d.isDirectory p = true := by rw [isDirectory, hfind]
    rw [if_pos hdirectory, mem_stylesheetsBelow hfind, walkedPath_of_findLink hlink]

/-- **The stylesheets that some paths name** are those that each of them stands for, one after the
other, in whatever order directories list their entries. -/
theorem stylesheets_listed (d : Disk) (paths : List Path) :
    (∃ blocks, d.stylesheets paths = blocks.flatten ∧ List.Forall₂ d.Listed paths blocks) ∧
      ∀ t : FileTree, t.entries.Perm d.tree.entries →
        stylesheets { d with tree := t } paths = d.stylesheets paths := by
  constructor
  · refine ⟨paths.map fun p => if d.isDirectory p then d.stylesheetsBelow p else [p], ?_, ?_⟩
    · rw [stylesheets, List.flatMap_def]
    · exact List.forall₂_map_right_iff.2 (List.forall₂_same.2 fun p _ => d.listed p)
  · intro t hperm
    rw [stylesheets, stylesheets]
    refine List.flatMap_congr fun p _ => ?_
    have hfind : find { d with tree := t } p = d.find p := findFor_of_perm hperm .entry p
    rw [stylesheetsBelow_of_perm hperm, isDirectory, isDirectory, hfind]

/-- Stylesheets in `/a`, in `/a-b` and in a hidden directory, and a link at a name of a
stylesheet. -/
def shelf : Disk where
  tree.entries := [([[0x61, 0x2D, 0x62]], .directory),
    ([[0x61, 0x2D, 0x62], Utf8.encode "x.css".toList], .file { content := [] }),
    ([[0x61]], .directory), ([[0x61], Utf8.encode "x.css".toList], .file { content := [] }),
    ([Utf8.encode ".h".toList], .directory),
    ([Utf8.encode ".h".toList, Utf8.encode "x.css".toList], .file { content := [] }),
    ([Utf8.encode "l.css".toList], .link (.ofString "a/x.css"))]
  cwd := ⟨[], 0⟩

/-- `/a/x.css` comes before `/a-b/x.css`, although the byte `-` comes before `/`. -/
theorem stylesheets_shelf :
    shelf.Listed (.ofString "/") [.ofString "/a/x.css", .ofString "/a-b/x.css"] ∧
      stylesheets { shelf with tree := { entries := shelf.tree.entries.reverse } }
          [.ofString "/"] =
        [.ofString "/a/x.css", .ofString "/a-b/x.css"] := by
  have hsheets : shelf.stylesheets [.ofString "/"] =
      [.ofString "/a/x.css", .ofString "/a-b/x.css"] := by cbv
  obtain ⟨⟨blocks, hblocks, hlisted⟩, hperm⟩ := shelf.stylesheets_listed [.ofString "/"]
  obtain ⟨block, _, hblock, hrest, rfl⟩ := List.forall₂_cons_left_iff.1 hlisted
  obtain rfl := List.forall₂_nil_left_iff.1 hrest
  rw [hsheets, List.flatten_singleton] at hblocks
  exact ⟨hblocks ▸ hblock, (hperm _ (List.reverse_perm _)).trans hsheets⟩

/-- A directory that holds a stylesheet whose name starts with `.` and is not text. -/
def dotted : Disk where
  tree.entries := [([[0x2E, 0xFF, 0x2E, 0x63, 0x73, 0x73]], .file { content := [] })]
  cwd := ⟨[], 0⟩

/-- It is found, although a name that starts with `.` leads to it. -/
theorem dotted_sheet_found :
    dotted.find (.ofString "/") = .ok (⟨[], 0⟩, .directory) ∧
      dotted.findLink (.ofString "/") = .ok (⟨[], 0⟩, .directory) ∧
      ¬∀ q, q ∈ dotted.stylesheets [.ofString "/"] ↔
        ∃ way, (∃ file, dotted.tree.get? way = some (.file file)) ∧
          (∀ name ∈ way, name.head? ≠ some Path.dot) ∧
          q = (Path.ofString "/").down way ∧ q.extension? = some stylesheetExtension := by
  have hsheets : dotted.stylesheets [.ofString "/"] =
      [⟨[0x2F, 0x2E, 0xFF, 0x2E, 0x63, 0x73, 0x73]⟩] := by cbv
  refine ⟨by cbv, by cbv, fun h => ?_⟩
  rw [hsheets] at h
  obtain ⟨way, ⟨file, hget⟩, hshown, -⟩ := (h _).1 (List.mem_singleton_self _)
  have hway : way ≠ [] := fun hnil => by
    rw [hnil] at hget
    cases hget
  have hmem := FileTree.mem_entries_of_get? hget hway
  cases List.mem_singleton.1 hmem
  exact hshown _ (List.mem_singleton_self _) rfl

end Disk

end StyleAssets
