import PlanAudit.Checker.Basic
import PlanAudit.Logging

/-!
# Settings

What a user sets once for all requests.

## Main definitions

* `Settings`: the settings, of which every one has a default
* `Settings.checkOptions`: the options of a request, layered over the settings
-/

namespace PlanAudit

/-- The settings. -/
structure Settings where
  /-- How much is written to the log. -/
  logLevel : LogWord := .warning
  /-- Whether experimental checkers take part. -/
  includeExperimental : Bool := false
  /-- The shapes of paths that every plan may create. -/
  allowedNew : List String := []
  /-- The number of levels that are scanned. -/
  maxScanDepth : Int := defaultScanDepth
  /-- At least one level is scanned. -/
  one_le_maxScanDepth : 1 ≤ maxScanDepth := by decide
  /-- The names of directories that are not scanned. -/
  skipDirectories : List String := defaultSkipped
  /-- Whether what is found is logged. -/
  logCatches : Bool := false
  /-- The written path of the catch log, if it is not kept in its usual place. -/
  catchesFile : Option String := none
  deriving DecidableEq, Repr

/-- What a caller chooses for one request. -/
structure CallOptions where
  /-- The path of the Prisma schema, seen from the project. -/
  schemaPath : Option String := none
  /-- The shapes of paths that the plan may create. -/
  allowedNew : List String := []
  /-- Whether experimental checkers take part. -/
  includeExperimental : Bool := false
  deriving DecidableEq, Repr

/-- The options of a request, layered over the settings: shapes of new paths add up, and
experimental checkers take part if either asks for them. -/
def Settings.checkOptions (s : Settings) (call : CallOptions) : CheckOptions :=
  { schemaPath := call.schemaPath
    allowedNew := s.allowedNew ++ call.allowedNew
    includeExperimental := call.includeExperimental || s.includeExperimental
    maxScanDepth := some s.maxScanDepth
    skipDirectories := some s.skipDirectories }

end PlanAudit
