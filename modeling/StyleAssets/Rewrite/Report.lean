import StyleAssets.Rewrite.Outcome

/-!
# Reports

What became of one stylesheet.
-/

namespace StyleAssets

/-- How the rewriting of one sheet ended. A sheet is skipped if a setting is missing, and rejected
if a copy failed and the policy is to leave the sheet as it is. -/
inductive Status where
  | complete
  | skipped (why : MissingSetting)
  | rejected
  deriving DecidableEq, Repr

/-- References left alone, by reason. -/
structure SkipCounts where
  dataUri : Nat := 0
  absolute : Nat := 0
  external : Nat := 0
  malformed : Nat := 0
  deriving DecidableEq, Repr

namespace SkipCounts

def total (c : SkipCounts) : Nat := c.dataUri + c.absolute + c.external + c.malformed

/-- Counts one more outcome. -/
def add (c : SkipCounts) : Outcome → SkipCounts
  | .skip (.dataUri _) => { c with dataUri := c.dataUri + 1 }
  | .skip (.absolute _) => { c with absolute := c.absolute + 1 }
  | .skip (.externalProtocol _) => { c with external := c.external + 1 }
  | .skip (.malformed _) => { c with malformed := c.malformed + 1 }
  | _ => c

end SkipCounts

/-- What became of one sheet: how many declarations have a new value and how many assets have been
copied. The failures are in the order of the sheet. -/
structure Report where
  sourceFile : Path
  status : Status := .complete
  rewritten : Nat := 0
  copied : Nat := 0
  skipped : SkipCounts := {}
  failures : List CopyFailure := []
  deriving DecidableEq, Repr

namespace Report

def isUnchanged (r : Report) : Bool := r.rewritten == 0

def isFailed (r : Report) : Bool := r.status == .rejected

def isSkipped (r : Report) : Bool :=
  match r.status with
  | .skipped _ => true
  | _ => false

end Report

end StyleAssets
