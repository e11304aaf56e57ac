import PlanAudit.Files.Project
import PlanAudit.Packages.Api
import PlanAudit.Reference
import PlanAudit.Suggestion

/-!
# Checkers

A checker judges the references of one domain in a plan against a project.  It may not apply to a
project, for instance if there is nothing to check against.

## Main definitions

* `CheckOptions`: what a caller chooses
* `Result`: what a checker counted and rejected
* `Outcome`: a result with the judged references and what the reports show of it
* `Audit`: the plan, the project and the options that a checker is given
* `Checker`: a checker of one domain
-/

namespace PlanAudit

/-! ## Options and results -/

/-- What a caller chooses. -/
structure CheckOptions where
  /-- The path of the Prisma schema, seen from the project. -/
  schemaPath : Option String := none
  /-- The shapes of paths that the plan may create. -/
  allowedNew : List String := []
  /-- Whether experimental checkers take part. -/
  includeExperimental : Bool := false
  /-- The number of levels that are scanned. -/
  maxScanDepth : Option Int := none
  /-- The names of directories that are not scanned. -/
  skipDirectories : Option (List String) := none
  deriving DecidableEq, Repr

/-- A rejected reference as a checker reports it. -/
structure Hallucination where
  /-- The reference as the plan writes it. -/
  raw : String
  /-- Why it is rejected. -/
  category : Category
  /-- What may have been meant. -/
  suggestion : Option String
  deriving DecidableEq, Repr

/-- What a checker counted and rejected. -/
structure Result where
  /-- The identifier of the checker. -/
  checkerId : String
  /-- The number of references that were judged. -/
  checked : Nat := 0
  /-- The number of rejected references. -/
  hallucinated : Nat := 0
  /-- The rejected references. -/
  hallucinations : List Hallucination := []
  /-- Whether the checker applied. -/
  applicable : Bool := false
  deriving DecidableEq, Repr

/-- The report of a rejected reference, which must have a category. -/
def Hallucination.ofReference (r : Reference) : Except Fault Hallucination :=
  match r.category with
  | some category => .ok ⟨r.raw, category, r.suggestion⟩
  | none => .error .missingCategory

namespace Result

/-- The result of a checker that does not apply. -/
def notApplicable (id : String) : Result := { checkerId := id }

/-- The result of a checker with the given judgements. -/
def ofReferences (id : String) (refs : List Reference) : Except Fault Result :=
  ((refs.filter (·.hallucinated)).mapM Hallucination.ofReference).map fun rejected =>
    { checkerId := id
      checked := refs.length
      hallucinated := rejected.length
      hallucinations := rejected
      applicable := true }

end Result

/-- A result with the judged references and what the reports show of it. -/
structure Outcome where
  /-- The result. -/
  result : Result
  /-- The judged references. -/
  references : List Reference := []
  /-- The lines of the checker in the full report. -/
  lines : List String := []
  /-- The excerpt for a reviewer; none if there is nothing to report. -/
  excerpt : Option String := none
  deriving DecidableEq, Repr

namespace Outcome

/-- The outcome of a checker that does not apply. -/
def notApplicable (id : String) : Outcome := { result := .notApplicable id }

/-- The outcome with the given judgements, shown as `lines` and `excerpt` say. -/
def ofReferences (id : String) (refs : List Reference) (lines : Result → List String)
    (excerpt : Result → Option String) : Except Fault Outcome :=
  (Result.ofReferences id refs).map fun result =>
    { result := result, references := refs, lines := lines result, excerpt := excerpt result }

end Outcome

/-! ## Checkers -/

/-- What a checker is given: a plan, a project and the options of the caller. -/
structure Audit where
  /-- The text of the plan. -/
  plan : List Char
  /-- The project. -/
  project : Project
  /-- The options. -/
  options : CheckOptions

/-- The file tree of the project, scanned as the options say. -/
def Audit.tree (a : Audit) : Except Fault FileTree :=
  a.project.scan (a.options.maxScanDepth.getD defaultScanDepth)
    (a.options.skipDirectories.getD defaultSkipped)

/-- A checker of one domain. -/
structure Checker where
  /-- The identifier. -/
  id : String
  /-- The name in reports. -/
  displayName : String
  /-- Whether it takes part only on request. -/
  experimental : Bool := false
  /-- What the checker makes of an audit.  It is given what is remembered of installed packages and
  says what is to be remembered, whether it fails or not. -/
  run : Audit → Packages.ApiCache → Except Fault Outcome × Packages.ApiCache

/-- A checker that needs nothing that is remembered. -/
def Checker.ofPure (id displayName : String) (experimental : Bool)
    (run : Audit → Except Fault Outcome) : Checker :=
  { id, displayName, experimental
    run := fun audit cache => (run audit, cache) }

/-! ## What reports show -/

/-- A text as code. -/
def code (s : String) : String := "\x60" ++ s ++ "\x60"

/-- Texts as code, separated by commas. -/
def codeList (items : List String) : String := Text.commaList (items.map code)

/-- A number in bold. -/
def bold (n : Nat) : String := "**" ++ toString n ++ "**"

/-- The bullet for a rejected reference: the reference, what is wrong, and the suggestion. -/
def issueLine (raw label : String) (suggestion : Option String) : String :=
  "- " ++ code raw ++ " — " ++ label ++ noteAfter suggestion

/-- The bullets for rejected references with their categories. -/
def hallucinationLines (r : Result) : List String :=
  r.hallucinations.map fun h => issueLine h.raw h.category.label h.suggestion

/-- An excerpt with a title, a sentence that counts, and bullets. -/
def excerptOf (title : String) (count : Nat) (noun : String) (lines : List String) : String :=
  "\n".intercalate
    (["### " ++ title, "", "Static analysis found " ++ toString count ++ " " ++ noun ++ ":", ""] ++
      lines)

/-- The excerpt with a bullet for each rejected reference; none if there is none. -/
def standardExcerpt (title noun : String) (r : Result) : Option String :=
  if !r.applicable || r.hallucinations.isEmpty then none
  else some (excerptOf title r.hallucinations.length noun (hallucinationLines r))

/-- The excerpt with bullets of the checker's own; none if nothing was rejected. -/
def ownExcerpt (title noun : String) (lines : List String) (r : Result) : Option String :=
  if r.hallucinated = 0 then none else some (excerptOf title r.hallucinated noun lines)

end PlanAudit
