import PlanAudit.Packages.Api
import PlanAudit.Suggestion

/-!
# Judging names and members of packages

## Main definitions

* `judgeNamedImport`: the judgement of an export that is imported by name
* `judgeMember`: the judgement of an access to a member of a bound name
* `resolveApis`: the exports of the packages that a plan imports
* `analyzeApi`: the judgements of the imported names and of the accesses to their members
-/

namespace PlanAudit.Packages

open PlanAudit.Text

/-- The mention of an export that is imported by name. -/
def namedImportMention (b : Binding) : Mention :=
  { raw := "import \x7b " ++ b.exportName ++ " \x7d from '" ++ b.package ++ "'"
    kind := .namedImport, owner := some b.package, name := some b.exportName }

/-- The judgement of an export that is imported by name. -/
def judgeNamedImport (api : Api) (m : Mention) : Reference :=
  if api.exports.contains m.memberName then m.accept
  else m.reject .namedImport (suggest m.memberName api.exports)

/-- The judgement of an access to a member of a bound name.  A name bound to one export is judged by
the members of that export, which admits any member if none is known; a name bound to the whole
package is judged by its exports and by the members of all of them. -/
def judgeMember (api : Api) (b : Binding) (m : Mention) : Reference :=
  match b.form with
  | .named =>
    match api.members.find? b.exportName with
    | none => m.accept
    | some members =>
      if members.isEmpty || members.contains m.memberName then m.accept
      else m.reject .member (suggest m.memberName members.names)
  | _ =>
    if api.exports.contains m.memberName || api.hasMember m.memberName then m.accept
    else m.reject .member (suggest m.memberName api.exports)

/-- The exports of the packages with the names, as far as they are known, and the cache after they
are read.  Nothing more is read after a fault, but what was read before stays in the cache. -/
def resolveApis (files : FileSystem) (packages : Path) (names : List String) (cache : ApiCache) :
    Except Fault (Catalog Api) × ApiCache :=
  names.foldl (fun acc name =>
      match acc with
      | (.error fault, cache) => (.error fault, cache)
      | (.ok apis, cache) =>
        match resolveApi files packages name cache with
        | (.ok (some api), cache) => (.ok (apis.insert name api), cache)
        | (.ok none, cache) => (.ok apis, cache)
        | (.error fault, cache) => (.error fault, cache))
    (.ok .empty, cache)

/-- The judgements of the exports that are imported by name from packages with known exports. -/
def judgedImports (apis : Catalog Api) (bound : List Binding) : List Reference :=
  (bound.filter (·.form == .named)).filterMap fun b =>
    (apis.find? b.package).map fun api => judgeNamedImport api (namedImportMention b)

/-- The judgements of the accesses to members of names bound to packages with known exports; a name
that is bound more than once counts as first bound. -/
def judgedMembers (apis : Catalog Api) (bound : List Binding) (plan : List Char) :
    List Reference :=
  (memberMentions plan bound).filterMap fun m =>
    (bound.find? fun b => b.localName == m.ownerName).bind fun b =>
      (apis.find? b.package).map fun api => judgeMember api b m

/-- The judgements of the imported names and of the accesses to their members. -/
def analyzeApi (plan : List Char) (apis : Catalog Api) : List Reference :=
  let bound := bindings plan
  Reference.dedupe (judgedImports apis bound ++ judgedMembers apis bound plan)

/-- The packages to which the names of a plan are bound, each once. -/
def boundPackages (plan : List Char) : List String :=
  firstPerKey id ((bindings plan).map (·.package))

end PlanAudit.Packages
