import StyleAssets.Run

/-!
# Surveys

Which paths the program looks up. A disk that holds these paths, and all directories and stylesheets
below the paths that are named, is as good to the program as a whole one.

* `Program.lookedUp` — the paths that are not named, as far as what is known of the disk shows.
-/

namespace StyleAssets.Program

/-- Where a configuration file may be. -/
def configPlaces (d : Disk) (a : Arguments) : List Path :=
  match d.cwdPath?, a.config with
  | some cwd, some p => [cwd.join p]
  | some cwd, none => cwd.ancestors.map (·.join Config.defaultFile)
  | none, _ => []

/-- The files behind the urls of a stylesheet, and where they go. -/
def assetPlaces (d : Disk) (c : Config) (sheet : Path) : List Path :=
  match Stylesheet.read d sheet, c.rewriteOptions.settings sheet with
  | .ok s, .ok settings =>
    ((settings.plan d.cwdPath? s).2.filterMap Outcome.job?).flatMap fun job =>
      [job.source, job.target]
  | _, _ => []

def outputPlaces (c : Config) (sheet : Path) : List Path :=
  match c.outDir, sheet.fileName? with
  | some directory, some name => [directory.join ⟨name⟩]
  | _, _ => []

/-- The paths that the program looks up besides those that are named. -/
def lookedUp (s : Surroundings) (a : Arguments) : List Path :=
  configPlaces s.disk a ++
    match (Config.load s a).1 with
    | .error _ => []
    | .ok c =>
      c.dumpDir.toList ++ c.outDir.toList ++ (s.disk.stylesheets a.paths).flatMap fun sheet =>
        outputPlaces c sheet ++ assetPlaces s.disk c sheet

end StyleAssets.Program
