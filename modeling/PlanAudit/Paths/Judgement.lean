import PlanAudit.Files.Tree
import PlanAudit.Number.Binary
import PlanAudit.Paths.Announcement
import PlanAudit.Paths.Mentions

/-!
# Judging file paths

A path is valid if the project has it, or a file whose path ends in it.  A path that is not valid
may be allowed or announced by the plan; all others are hallucinated.

## Main definitions

* `judge`: the judgement of one path
* `analyze`: the judgements of the paths of a plan
* `hallucinationRate`: the hallucinated share of the paths that should exist
-/

namespace PlanAudit.Paths

/-- Whether the project has the path, or a file whose path ends in it. -/
def exists? (tree : FileTree) (path : String) : Bool :=
  tree.contains path || (tree.findSuffix? path).isSome

/-- The judgement of a path. -/
def judge (tree : FileTree) (plan : List Char) (allowed : List String) (m : Mention) : Reference :=
  if exists? tree m.raw then m.accept
  else if matchesAllowedNew m.raw allowed || hasCreateSignal m.raw plan then m.announce
  else m.reject .path

/-- The judgements of the paths of a plan. -/
def analyze (plan : List Char) (tree : FileTree) (allowed : List String) : List Reference :=
  (mentions plan).map (judge tree plan allowed)

/-- The paths that exist. -/
def validPaths (refs : List Reference) : List String :=
  (refs.filter (·.valid)).map (·.raw)

/-- The paths that the plan will create. -/
def newPaths (refs : List Reference) : List String :=
  (refs.filter (·.intentionalNew)).map (·.raw)

/-- The paths that do not exist. -/
def hallucinatedPaths (refs : List Reference) : List String :=
  (refs.filter (·.hallucinated)).map (·.raw)

/-- A fraction of natural numbers. -/
structure Ratio where
  /-- The numerator. -/
  num : Nat
  /-- The denominator. -/
  den : Nat
  deriving DecidableEq, Repr

/-- The fraction in decimal digits with six places. -/
def Ratio.text (r : Ratio) : String :=
  ((Number.Binary.ofFraction? r.num r.den).getD .zero).fixedPlaces 6

/-- The hallucinated share of the paths that should exist; zero if none should. -/
def hallucinationRate (refs : List Reference) : Ratio :=
  let den := refs.length - (newPaths refs).length
  if den = 0 then ⟨0, 1⟩ else ⟨(hallucinatedPaths refs).length, den⟩

end PlanAudit.Paths
