import StyleAssets.Path.Basic

/-!
# Lexical resolution

Resolving a path lexically removes `.` and lets each `..` cancel the component before it, without
looking at any disk.

* `Path.resolve` — the absolute form of a path, anchored at the working directory if that is known.
-/

namespace StyleAssets.Path

/-- What is left of `done` after one more component. Nothing cancels the root; with nothing left to
cancel, `..` stays. -/
def advance (done : List Component) : Component → List Component
  | .current => done
  | .parent =>
    match done.getLast? with
    | none => [.parent]
    | some .root => done
    | some _ => done.dropLast
  | .root => [.root]
  | .normal name => done ++ [.normal name]

/-- Lets `.` and `..` take effect, from left to right. -/
def cancel (components : List Component) : List Component := components.foldl advance []

/-- The path seen from the working directory, if that is known. -/
def anchor (cwd : Option Path) (p : Path) : Path :=
  if p.isAbsolute then p else match cwd with
    | some directory => directory.join p
    | none => p

def resolve (cwd : Option Path) (p : Path) : Path := ofComponents (cancel (anchor cwd p).components)

end StyleAssets.Path
