import StyleAssets.Proofs.Run.Stage

/-!
# Runs that do not disturb themselves

A run over some sheets may write what it reads: a copy may replace a sheet or an asset that is read
later, or bring into being what was missing. A run is undisturbed if that does not happen. Then each
of its sheets finds what it would have found in the beginning, and fills the same places.

* `Config.Fills`, `Config.Makes` — where a run writes files and where directories come to be.
* `Config.Undisturbed` — none of that matters to what the run reads.
* `Config.Underway` — a disk on the way of a run.
* `Config.Undisturbed.read` — reading a sheet in the middle of a run comes to the same as in the
  beginning.
* `Run.Processes.underway` — processing a sheet stays on the way of the run.
-/

namespace StyleAssets

namespace Config

/-- The copies that are run for a sheet: the first for each target. -/
def copies (c : Config) (d : Disk) (p : Path) : List CopyJob :=
  match Stylesheet.read d p with
  | .ok sheet => CopyJob.firstOfEach (c.rewriteOptions.jobs d sheet)
  | .error _ => []

/-- Where a run over `sheets` that leads from `d` to `d'` writes files: copies, and the texts of
sheets. -/
def filled (c : Config) (d d' : Disk) (sheets : List Path) : List Location :=
  sheets.flatMap fun p =>
    (CopyJob.effects d (c.copies d p)).map (·.1) ++
      (c.output? p).toList.filterMap fun target => (d'.aim target).toOption

/-- Is a file written at a location? -/
def Fills (c : Config) (d d' : Disk) (sheets : List Path) (place : Location) : Prop :=
  place ∈ c.filled d d' sheets

instance (c : Config) (d d' : Disk) (sheets : List Path) : DecidablePred (c.Fills d d' sheets) :=
  fun place => inferInstanceAs (Decidable (place ∈ c.filled d d' sheets))

/-- Where directories come to be. -/
def Makes (d d' : Disk) (place : Location) : Prop :=
  d.tree.get? place = none ∧ d'.tree.get? place = some .directory

instance (d d' : Disk) : DecidablePred (Makes d d') :=
  fun place => inferInstanceAs (Decidable (d.tree.get? place = none ∧ _))

/-- What a run over `sheets` writes on its way from `d` to `d'` does not matter to what it reads:
every sheet and every source is a file that is not written, or nothing is written on the way to it,
and every target names a place from the start, or nothing is written on the way to it. -/
structure Undisturbed (c : Config) (d d' : Disk) (sheets : List Path) : Prop where
  sheet : ∀ p ∈ sheets, d.ReadsSteadily (c.Fills d d' sheets) (Makes d d') p
  copy : ∀ p ∈ sheets, ∀ job ∈ c.copies d p, job.Steady (c.Fills d d' sheets) (Makes d d') d

theorem undisturbed_iff (c : Config) (d d' : Disk) (sheets : List Path) :
    c.Undisturbed d d' sheets ↔
      ∀ p ∈ sheets, d.ReadsSteadily (c.Fills d d' sheets) (Makes d d') p ∧
        ∀ job ∈ c.copies d p, job.Steady (c.Fills d d' sheets) (Makes d d') d :=
  ⟨fun h p hp => ⟨h.sheet p hp, h.copy p hp⟩,
    fun h => ⟨fun p hp => (h p hp).1, fun p hp => (h p hp).2⟩⟩

instance (c : Config) (d d' : Disk) (sheets : List Path) :
    Decidable (c.Undisturbed d d' sheets) :=
  decidable_of_iff _ (undisturbed_iff c d d' sheets).symm

/-- A disk on the way of a run. -/
abbrev Underway (c : Config) (d d' : Disk) (sheets : List Path) (e : Disk) : Prop :=
  Disk.Evolves (c.Fills d d' sheets) (Makes d d') d e

variable {c : Config} {d d' e e' : Disk} {sheets : List Path} {p : Path} {sheet : Stylesheet}
  {css : Text}

theorem copies_of_read (h : Stylesheet.read d p = .ok sheet) :
    c.copies d p = CopyJob.firstOfEach (c.rewriteOptions.jobs d sheet) := by
  rw [copies, h]

theorem Undisturbed.read (h : c.Undisturbed d d' sheets) (hp : p ∈ sheets)
    (he : c.Underway d d' sheets e) : Stylesheet.read e p = Stylesheet.read d p := by
  have hfind := Disk.find_of_evolves he (h.sheet p hp)
  rw [Stylesheet.read, Stylesheet.read, Disk.readText, Disk.readText, Disk.read, Disk.read, hfind,
    he.grows.user]
  cases hfound : d.find p with
  | error cause => rfl
  | ok found =>
    obtain ⟨position, entry⟩ := found
    rw [Disk.normalize_of_grows he.grows hfound]

theorem fills_of_effect (hp : p ∈ sheets) {job : CopyJob} (hjob : job ∈ c.copies d p) :
    job.FillsOnly (c.Fills d d' sheets) d :=
  fun _ _ heffect => List.mem_flatMap.2 ⟨p, hp, List.mem_append_left _
    (List.mem_map_of_mem (CopyJob.mem_effects.2 ⟨job, hjob, heffect⟩))⟩

theorem fills_of_aim (hp : p ∈ sheets) {target : Path} {place : Location}
    (htarget : c.output? p = some target) (haim : d'.aim target = .ok place) :
    c.Fills d d' sheets place :=
  List.mem_flatMap.2 ⟨p, hp, List.mem_append_right _
    (List.mem_filterMap.2 ⟨target, by simp [htarget], by rw [haim]; rfl⟩)⟩

theorem jobs_of_underway (he : c.Underway d d' sheets e) :
    c.rewriteOptions.jobs e sheet = c.rewriteOptions.jobs d sheet := by
  rw [RewriteOptions.jobs, RewriteOptions.jobs, Disk.cwdPath?_of_grows he.grows]

/-- What rewriting a sheet does to the disk in the middle of a run. -/
theorem disk_apply (he : c.Underway d d' sheets e) (hread : Stylesheet.read d p = .ok sheet) :
    (c.rewriteOptions.apply e sheet).disk = (CopyJob.runEach e (c.copies d p)).1 := by
  rw [(c.rewriteOptions.apply_runAll e sheet).1, jobs_of_underway he, copies_of_read hread]
  rfl

/-- Rewriting a sheet stays on the way of the run. -/
theorem Undisturbed.apply (h : c.Undisturbed d d' sheets) (hp : p ∈ sheets)
    (he : c.Underway d d' sheets e) (hread : Stylesheet.read d p = .ok sheet) :
    c.Underway d d' sheets (c.rewriteOptions.apply e sheet).disk := by
  rw [disk_apply he hread]
  exact CopyJob.evolves_runEach he (h.copy p hp) fun job => fills_of_effect hp

theorem underway_of_furnishes (he : c.Underway d d' sheets e) (hfurnishes : e.Furnishes e')
    (hlater : e'.Grows d') : c.Underway d d' sheets e' where
  grows := he.grows.trans hfurnishes.grows
  same place hfilled hmade := by
    rw [← he.same place hfilled hmade]
    cases hget' : e'.tree.get? place with
    | none => exact (hfurnishes.grows.absent hget').symm
    | some entry =>
      obtain hsame | ⟨hnone, rfl⟩ := hfurnishes.only place entry hget'
      · exact hsame.symm
      · exact absurd ⟨he.grows.absent hnone, hlater.directory hget'⟩ hmade
  file place entry hmade hentry := by
    obtain hsame | ⟨hnone, rfl⟩ := hfurnishes.only place entry hentry
    · exact he.file place entry hmade hsame
    · exact absurd ⟨he.grows.absent hnone, hlater.directory hentry⟩ hmade

/-- Where the text of a sheet goes in the end, once it has been written there. -/
theorem aim_later {target : Path} {place : Location} {file : File}
    (haim : e.aim target = .ok place) (hplace : e.Receives place file)
    (hlater : (e.put place (.file file)).Grows d') :
    d'.aim target = .ok place ∧ ∃ file', d'.tree.get? place = some (.file file') := by
  obtain ⟨file', hget⟩ := hlater.file (Disk.get?_put_self hplace.takes _)
  refine ⟨Disk.aim_of_grows ((Disk.grows_put_file hplace).trans hlater) haim
    fun entry hentry => ⟨file', ?_⟩, file', hget⟩
  rw [hget] at hentry
  exact (Option.some.inj hentry).symm

/-- Storing a text stays on the way of the run. -/
theorem underway_of_store (he : c.Underway d d' sheets e) (hp : p ∈ sheets)
    (hstore : c.store e p css = some e') (hlater : e'.Grows d') : c.Underway d d' sheets e' := by
  obtain ⟨-, rfl⟩ | ⟨directory, target, made, place, -, htarget, hmade, hwritable, rfl⟩ :=
    store_eq_some hstore
  · exact he
  · have hplace := Disk.receives_refilled hwritable (Utf8.encode css)
    have haim := (Disk.writable_eq_ok.1 hwritable).1
    have hmade' := underway_of_furnishes he (Disk.furnishes_of_makeDirectories hmade)
      ((Disk.grows_put_file hplace).trans hlater)
    exact hmade'.put (fills_of_aim hp htarget (aim_later haim hplace hlater).1) hplace

end Config

namespace Run

variable [Minifier] {c : Config} {d d' : Disk} {sheets rest : List Path} {p : Path} {r r' : Run}
  {sheet : Stylesheet}

/-- Processing a sheet stays on the way of the run. -/
theorem Processes.underway (h : Processes c r p sheet r') (hcalm : c.Undisturbed d d' sheets)
    (hp : p ∈ sheets) (hr : c.Underway d d' sheets r.disk) (hlater : r'.disk.Grows d') :
    c.Underway d d' sheets r'.disk := by
  have hread : Stylesheet.read d p = .ok sheet := (hcalm.read hp hr).symm.trans h.read
  exact Config.underway_of_store (hcalm.apply hp hr hread) hp h.store hlater

end Run

end StyleAssets
