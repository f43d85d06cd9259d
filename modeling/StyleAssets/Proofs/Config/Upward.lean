import StyleAssets.Config.Load
import StyleAssets.Proofs.FileTree.RealPath
import StyleAssets.Proofs.Path.Ancestors

/-!
# Where a configuration is loaded

The configuration file is searched for in the working directory and above it, and what the file
says of directories is seen from where the file is. So it does not matter where below the file the
program is started, as long as no other file is nearer.

* `Disk.findUpward_append` — directories without the file are passed over;
  `Disk.exists_findUpward` says that the search ends at a file.
* `Config.loadFrom_of_file?` — where the same file is found, the same settings are loaded.
* `Config.load_below` — **main result**: loading does not depend on where below the file one stands,
  and the directories that it gives are absolute and without `.` and `..`.
-/

namespace StyleAssets

namespace Disk

variable {d : Disk} {place way : Location} {name : Path}

theorem findUpward_path (hplace : place.Named) :
    d.findUpward place.path name =
      (place.inits.reverse.map fun above : Location => above.path.join name).find? d.isFile := by
  rw [findUpward, Location.ancestors_path hplace, List.map_reverse, List.map_map, List.map_reverse]
  rfl

/-- **Directories without the file are passed over.** -/
theorem findUpward_append (hnamed : (place ++ way).Named)
    (hnone : ∀ between, between <+: way → between ≠ [] →
      d.isFile ((place ++ between).path.join name) = false) :
    d.findUpward (place ++ way).path name = d.findUpward place.path name := by
  have hplace : place.Named := fun step hstep => hnamed step (List.mem_append_left _ hstep)
  rw [findUpward_path hnamed, findUpward_path hplace, List.inits_append, List.reverse_append,
    List.map_append, List.find?_append]
  have hpassed : (((way.inits.tail.map (place ++ ·)).reverse.map
      fun above : Location => above.path.join name).find? d.isFile) = none := by
    refine List.find?_eq_none.2 fun q hq => ?_
    obtain ⟨above, habove, rfl⟩ := List.mem_map.1 hq
    obtain ⟨between, hbetween, rfl⟩ := List.mem_map.1 (List.mem_reverse.1 habove)
    have hne : between ≠ [] := by
      rintro rfl
      cases way with
      | nil => cases hbetween
      | cons step way => simp at hbetween
    rw [hnone between ((List.mem_inits _ _).1 (List.mem_of_mem_tail hbetween)) hne]
    exact Bool.false_ne_true
  rw [hpassed, Option.none_or]

/-- **The search ends at a file** if there is one. -/
theorem exists_findUpward (hplace : place.Named)
    (h : ∃ above : Location, above <+: place ∧ d.isFile (above.path.join name) = true) :
    ∃ above : Location, above <+: place ∧
      d.findUpward place.path name = some (above.path.join name) := by
  obtain ⟨above, habove, hfile⟩ := h
  rw [findUpward_path hplace]
  cases hfound : List.find? d.isFile
      (place.inits.reverse.map fun above : Location => above.path.join name) with
  | none =>
    refine absurd hfile (List.find?_eq_none.1 hfound _ (List.mem_map.2 ⟨above, ?_, rfl⟩))
    exact List.mem_reverse.2 ((List.mem_inits _ _).2 habove)
  | some file =>
    obtain ⟨nearest, hnearest, rfl⟩ := List.mem_map.1 (List.mem_of_find?_eq_some hfound)
    exact ⟨nearest, (List.mem_inits _ _).1 (List.mem_reverse.1 hnearest), rfl⟩

/-- A search from an absolute directory does not depend on the working directory. -/
theorem findUpward_of_isAbsolute {t : FileTree} {start : Path} (hstart : start.isAbsolute = true)
    (c c' : Position) (u : User) (name : Path) :
    findUpward ⟨t, c, u⟩ start name = findUpward ⟨t, c', u⟩ start name := by
  refine List.find?_congr fun q hq => ?_
  obtain ⟨above, habove, rfl⟩ := List.mem_map.1 hq
  exact isFile_of_isAbsolute
    (Path.isAbsolute_join (Path.isAbsolute_of_mem_ancestors hstart habove) _)

end Disk

namespace Surroundings

variable {t : FileTree} {u : User} {home : Option Text} {base : Path}

/-- What is seen from an absolute directory does not depend on the working directory. -/
theorem expand_of_isAbsolute (hbase : base.isAbsolute = true) (c c' : Position) :
    expand ⟨⟨t, c, u⟩, home⟩ base = expand ⟨⟨t, c', u⟩, home⟩ base := by
  funext p
  exact Disk.normalize_of_isAbsolute (Path.isAbsolute_join hbase _)

theorem components_expand (s : Surroundings) (hbase : base.isAbsolute = true) (p : Path) :
    (s.expand base p).isAbsolute = true ∧
      ∃ names : List Name, (s.expand base p).components = .root :: names.map .normal :=
  s.disk.components_normalize (Path.isAbsolute_join hbase _)

end Surroundings

namespace Config

variable {t : FileTree} {u : User} {home : Option Text} {a : Arguments} {s : Surroundings}
  {config : Config} {cwd cwd' file parent dir : Path} {c c' : Position} {log : Log}

/-- **Where the same file is found, the same settings are loaded**, unless the command line names
directories. -/
theorem loadFrom_of_file? (hfile : file? ⟨t, c, u⟩ cwd a = some file)
    (hfile' : file? ⟨t, c', u⟩ cwd' a = some file) (habsolute : file.isAbsolute = true)
    (hparent : file.parent? = some parent) (hdump : a.dumpDir = none) (hout : a.outDir = none) :
    loadFrom ⟨⟨t, c, u⟩, home⟩ cwd a = loadFrom ⟨⟨t, c', u⟩, home⟩ cwd' a := by
  have hread : readFile ⟨t, c, u⟩ file = readFile ⟨t, c', u⟩ file := by
    rw [readFile, readFile, Disk.readText_of_isAbsolute habsolute]
  have hexpand : Surroundings.expand ⟨⟨t, c, u⟩, home⟩ parent =
      Surroundings.expand ⟨⟨t, c', u⟩, home⟩ parent :=
    Surroundings.expand_of_isAbsolute (Path.isAbsolute_of_parent? habsolute hparent) c c'
  have hsettings : ∀ settings : Config,
      (anchored ⟨⟨t, c, u⟩, home⟩ parent settings).override ⟨⟨t, c, u⟩, home⟩ cwd a =
        (anchored ⟨⟨t, c', u⟩, home⟩ parent settings).override ⟨⟨t, c', u⟩, home⟩ cwd' a := by
    intro settings
    simp only [anchored, override, hexpand, hdump, hout, Option.map_none]
  simp only [loadFrom, hfile, hfile', hread, hparent, Option.getD_some, hsettings]

theorem isAbsolute_of_file? {d : Disk} (hcwd : cwd.isAbsolute = true)
    (h : file? d cwd a = some file) : file.isAbsolute = true := by
  unfold file? at h
  split at h
  · cases h
    exact (d.components_normalize (Path.isAbsolute_join hcwd _)).1
  · obtain ⟨above, habove, rfl⟩ := List.mem_map.1 (List.mem_of_find?_eq_some h)
    exact Path.isAbsolute_join (Path.isAbsolute_of_mem_ancestors hcwd habove) _

/-- Where the directories in the settings come from: from the command line, seen from the working
directory, or from what is written in the file, seen from where that is. -/
theorem load_eq_ok (h : load s a = (.ok config, log)) :
    ∃ (cwd base : Path) (written : Config), cwd.isAbsolute = true ∧ base.isAbsolute = true ∧
      config.dumpDir =
        (a.dumpDir.map (s.expand cwd)).or (written.dumpDir.map (s.expand base)) ∧
      config.outDir = (a.outDir.map (s.expand cwd)).or (written.outDir.map (s.expand base)) := by
  unfold load at h
  split at h
  · rename_i cwd hcwd
    have hcwd : cwd.isAbsolute = true := by
      unfold Disk.cwdPath? at hcwd
      split at hcwd <;> cases hcwd
      rfl
    unfold loadFrom at h
    split at h
    · cases h
      exact ⟨cwd, cwd, {}, hcwd, hcwd, rfl, rfl⟩
    · rename_i file hfile
      have habsolute := isAbsolute_of_file? hcwd hfile
      have hbase : (file.parent?.getD cwd).isAbsolute = true := by
        cases hparent : file.parent? with
        | none => exact hcwd
        | some parent => exact Path.isAbsolute_of_parent? habsolute hparent
      split at h
      · cases h
      · rename_i written _ _
        cases h
        exact ⟨cwd, _, written, hcwd, hbase, rfl, rfl⟩
  · cases h

/-- The directories in the settings are written without `.` and `..`. -/
theorem components_of_load (h : load s a = (.ok config, log))
    (hdir : config.dumpDir = some dir ∨ config.outDir = some dir) :
    dir.isAbsolute = true ∧ ∃ names : List Name, dir.components = .root :: names.map .normal := by
  obtain ⟨cwd, base, written, hcwd, hbase, hdump, hout⟩ := load_eq_ok h
  have hseen : ∀ named seen : Option Path,
      (named.map (s.expand cwd)).or (seen.map (s.expand base)) = some dir →
        dir.isAbsolute = true ∧
          ∃ names : List Name, dir.components = .root :: names.map .normal := by
    intro named seen hsome
    obtain hnamed | ⟨-, hwritten⟩ := Option.or_eq_some_iff.1 hsome
    · obtain ⟨p, -, rfl⟩ := Option.map_eq_some_iff.1 hnamed
      exact s.components_expand hcwd p
    · obtain ⟨p, -, rfl⟩ := Option.map_eq_some_iff.1 hwritten
      exact s.components_expand hbase p
  obtain hdir | hdir := hdir
  · exact hseen _ _ (hdump ▸ hdir)
  · exact hseen _ _ (hout ▸ hdir)

/-- A file of the usual name is found in a directory, perhaps by way of a link. -/
def FoundIn (t : FileTree) (place : Location) : Prop :=
  Disk.isFile { tree := t, cwd := ⟨[], 0⟩ } (place.path.join defaultFile) = true

instance (t : FileTree) (place : Location) : Decidable (FoundIn t place) :=
  inferInstanceAs (Decidable (_ = true))

/-- **Loading does not depend on where below the configuration file one stands:** if no other file
is nearer and the command line names neither the file nor a directory, then the settings, or the
error, and all that is said are the same. Whatever the command line names, the directories in
settings that are loaded are absolute and without `.` and `..`. -/
theorem load_below :
    (∀ (t : FileTree) (u : User) (home : Option Text) (place way : Location) (a : Arguments),
      (place ++ way).Named →
      (∃ above, above <+: place ∧ FoundIn t above) →
      (∀ between, between <+: way → between ≠ [] → ¬FoundIn t (place ++ between)) →
      a.config = none → a.dumpDir = none → a.outDir = none →
      load ⟨⟨t, ⟨place ++ way, 0⟩, u⟩, home⟩ a = load ⟨⟨t, ⟨place, 0⟩, u⟩, home⟩ a) ∧
    ∀ (s : Surroundings) (a : Arguments) (config : Config) (log : Log) (dir : Path),
      load s a = (.ok config, log) → config.dumpDir = some dir ∨ config.outDir = some dir →
      dir.isAbsolute = true ∧ .current ∉ dir.components ∧ .parent ∉ dir.components := by
  refine ⟨fun t u home place way a hnamed habove hbetween hconfig hdump hout => ?_,
    fun s a config log dir h hdir => ?_⟩
  · have hplace : place.Named := fun step hstep => hnamed step (List.mem_append_left _ hstep)
    have hjoin : ∀ above : Location, (above.path.join defaultFile).isAbsolute = true :=
      fun above => Path.isAbsolute_join rfl _
    obtain ⟨above, hfront, hfound⟩ := Disk.exists_findUpward (d := ⟨t, ⟨place, 0⟩, u⟩) hplace
      (habove.imp fun above h => ⟨h.1, (Disk.isFile_of_isAbsolute (hjoin above)).trans h.2⟩)
    have hpassed : Disk.findUpward ⟨t, ⟨place ++ way, 0⟩, u⟩ (place ++ way).path defaultFile =
        Disk.findUpward ⟨t, ⟨place ++ way, 0⟩, u⟩ place.path defaultFile := by
      refine Disk.findUpward_append hnamed fun between hfront hne => Bool.eq_false_iff.2 fun h => ?_
      exact hbetween between hfront hne ((Disk.isFile_of_isAbsolute (hjoin _)).trans h)
    have hbelow := (hpassed.trans (Disk.findUpward_of_isAbsolute rfl _ _ _ _)).trans hfound
    have hname : Path.IsStep (.normal defaultFile.bytes) := by decide +kernel
    have habove : above.Named := fun step hstep => hplace step (hfront.subset hstep)
    have hparent : (above.path.join defaultFile).parent? = some above.path := by
      rw [← Location.path_concat habove hname]
      exact Location.parent?_path
        (List.forall_mem_append.2 ⟨habove, List.forall_mem_singleton.2 hname⟩)
    rw [load, load]
    exact loadFrom_of_file? (by rw [file?, hconfig]; exact hbelow)
      (by rw [file?, hconfig]; exact hfound) (hjoin above) hparent hdump hout
  · obtain ⟨habsolute, names, hnames⟩ := components_of_load h hdir
    exact ⟨habsolute, by simp [hnames], by simp [hnames]⟩

/-- A directory `/s` with a configuration file that sets `d`, and in it a directory `c` in which a
directory stands at the name of the file. -/
def project : FileTree where
  entries := [([[0x73]], .directory),
    ([[0x73], defaultFile.bytes],
      .file { content := Utf8.encode "[rewrite]\ndump_dir = \"d\"".toList }),
    ([[0x73], [0x63]], .directory), ([[0x73], [0x63], defaultFile.bytes], .directory)]

/-- The project, seen from one of its directories. -/
def projectFrom (place : Location) : Surroundings := ⟨⟨project, ⟨place, 0⟩, {}⟩, none⟩

/-- The directory in `c` is passed over, and the file in `s` is found from both. -/
theorem load_below_project :
    load (projectFrom [[0x73], [0x63]]) {} = load (projectFrom [[0x73]]) {} ∧
      load (projectFrom [[0x73]]) {} =
        (.ok { configPath := some (.ofString "/s/twist.toml"), root := .ofString "/s",
               dumpDir := some (.ofString "/s/d") }, []) ∧
      .parent ∉ (Path.ofString "/s/d").components := by
  have hfile : file? (projectFrom [[0x73]]).disk (Location.path [[0x73]]) {} =
      some (.ofString "/s/twist.toml") := by cbv
  have hread : readFile (projectFrom [[0x73]]).disk (.ofString "/s/twist.toml") =
      .ok ({ dumpDir := some (.ofString "d") }, []) := by
    have htext : (projectFrom [[0x73]]).disk.readText (.ofString "/s/twist.toml") =
        .ok "[rewrite]\ndump_dir = \"d\"".toList := by cbv
    have hsettings : ofToml "[rewrite]\ndump_dir = \"d\"".toList =
        .ok ({ dumpDir := some (.ofString "d") }, []) := by decide +kernel
    rw [readFile, htext]
    simp only [hsettings]
  have hparent : (Path.ofString "/s/twist.toml").parent? = some (.ofString "/s") := by
    decide +kernel
  have hexpand : (projectFrom [[0x73]]).expand (.ofString "/s") (.ofString "d") =
      .ofString "/s/d" := by cbv
  have hload : load (projectFrom [[0x73]]) {} =
      (.ok { configPath := some (.ofString "/s/twist.toml"), root := .ofString "/s",
             dumpDir := some (.ofString "/s/d") }, []) := by
    rw [load, show (projectFrom [[0x73]]).disk.cwdPath? = some (Location.path [[0x73]]) from rfl]
    simp only [loadFrom, hfile, hread, hparent, anchored, override, Option.getD_some,
      Option.map_some, hexpand]
    rfl
  have hfound : FoundIn project [[0x73]] := by
    unfold FoundIn
    cbv
  have hnone : ∀ between : Location, between <+: [[0x63]] → between ≠ [] →
      ¬FoundIn project ([[0x73]] ++ between) := by
    intro between hfront hne
    obtain rfl | ⟨rest, rfl, hrest⟩ := List.prefix_cons_iff.1 hfront
    · exact absurd rfl hne
    · obtain rfl := List.prefix_nil.1 hrest
      unfold FoundIn
      cbv
      exact Bool.false_ne_true
  obtain ⟨hsame, hclean⟩ := load_below
  exact ⟨hsame project {} none [[0x73]] [[0x63]] {} (by decide) ⟨_, List.prefix_rfl, hfound⟩ hnone
    rfl rfl rfl, hload, (hclean _ _ _ _ _ hload (.inl rfl)).2.2⟩

end Config

end StyleAssets
