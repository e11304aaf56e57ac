import PlanAudit.Checker.Basic
import PlanAudit.Paths.Judgement
import PlanAudit.Paths.Nearby

/-!
# The checker of file paths

## Main definitions

* `reportLines`: the paths that do not exist with real ones near them, and the new paths
* `checker`: the checker, which applies to every project
-/

namespace PlanAudit.Paths

/-- The number of files that resemble a path that are listed. -/
def maxClosest : Nat := 5

/-- The number of files of a directory that are listed. -/
def maxDirectoryFiles : Nat := 15

/-- A line with a label and a list, if the list is not empty. -/
def listLine (label : String) (items : List String) : List String :=
  if items.isEmpty then [] else [label ++ codeList items]

/-- The lines for a path that does not exist. -/
def missingLines (tree : FileTree) (path : String) : List String :=
  ("- " ++ code path ++ " — **NOT FOUND**") ::
    (listLine "  - Closest: " (closestPaths path tree maxClosest) ++
      listLine "  - In that directory: " (directoryFiles path tree maxDirectoryFiles))

/-- The lines of the checker in the full report. -/
def reportLines (tree : FileTree) (refs : List Reference) : List String :=
  let missing := hallucinatedPaths refs
  ["## File Paths",
      bold refs.length ++ " paths checked — " ++ bold missing.length ++ " hallucinated | " ++
        toString tree.size ++ " files indexed"] ++
    missing.flatMap (missingLines tree) ++
    (if missing.isEmpty then ["All paths valid."] else []) ++
    listLine "New files planned: " (newPaths refs) ++ [""]

/-- The excerpt for a reviewer. -/
def excerpt (refs : List Reference) : Result → Option String :=
  ownExcerpt "File Path Issues" "file path(s) that do not exist in the project"
    ((hallucinatedPaths refs).map fun path =>
      "- " ++ code path ++ " — **NOT FOUND** in project tree")

/-- The checker of file paths. -/
def checker : Checker :=
  .ofPure "paths" "File Paths" false fun audit =>
    audit.tree.bind fun tree =>
      let refs := analyze audit.plan tree audit.options.allowedNew
      Outcome.ofReferences "paths" refs (fun _ => reportLines tree refs) (excerpt refs)

end PlanAudit.Paths
