import PlanAudit.Packages.Bindings
import PlanAudit.Packages.Declarations
import PlanAudit.Types.Declaration

/-!
# What packages export

The exports of a package are read off its declaration file and the files whose exports it passes
on.  Files are followed to a fixed depth, and into another package at most once.

## Main definitions

* `Api`: the exports of a package and the members of those that have any
* `declaredNames`, `listedNames`, `passedOn`, `namespaceNames`: what one file exports
* `exportSource?`: the file behind a specifier
* `apiOf`: the exports of a declaration file
* `ApiCache`, `resolveApi`: the exports of an installed package, remembered by declaration file
-/

namespace PlanAudit.Packages

open PlanAudit.Text Pattern

/-- The exports of a package and the members of those that have any. -/
structure Api where
  /-- The names of the exports. -/
  exports : List String
  /-- The members of interfaces and classes among them. -/
  members : Catalog (Catalog Types.Member)

/-- Whether any export has a member of the name. -/
def Api.hasMember (api : Api) (name : String) : Bool :=
  api.members.values.any (·.contains name)

/-! ## One file -/

/-- An exported declaration. -/
def exportedDeclaration : Pattern :=
  lineStart ++ lit "export" ++ blanks1 ++ opt (lit "declare" ++ blanks1) ++
    (oneOfTexts ["function", "const", "let", "var", "class"] |||
      (lit "abstract" ++ blanks1 ++ lit "class") |||
      oneOfTexts ["interface", "type", "enum", "namespace"]) ++
    blanks1 ++ capture 1 name

/-- A list of exports. -/
def exportList : Pattern :=
  lineStart ++ lit "export" ++ blanks ++ char '{' ++ capture 1 (plus (one (· != '}'))) ++ char '}'

/-- A file whose exports are passed on. -/
def exportAll : Pattern :=
  lineStart ++ lit "export" ++ blanks1 ++ char '*' ++ blanks1 ++ lit "from" ++ blanks1 ++ quoted 1

/-- A file whose exports are passed on under one name. -/
def exportNamespace : Pattern :=
  lineStart ++ lit "export" ++ blanks1 ++ char '*' ++ blanks1 ++ lit "as" ++ blanks1 ++
    capture 1 name ++ blanks1 ++ lit "from" ++ blanks1 ++ quoted 2

/-- The name that a part of a list of exports gives; types are left out. -/
def listedName? (part : List Char) : Option String :=
  if part.isEmpty || beginsWith "type ".toList part then none
  else
    match aliasClause.matchStart part with
    | some m => some (m.name 2)
    | none => if soleName.matchesStart part then some (String.ofList part) else none

/-- The names that a file declares as exports. -/
def declaredNames (content : List Char) : List String :=
  (exportedDeclaration.findAll content).map (Match.name · 1)

/-- The names that a file lists as exports. -/
def listedNames (content : List Char) : List String :=
  (exportList.findAll content).flatMap fun m => (commaParts (m.group 1)).filterMap listedName?

/-- The specifiers of the files whose exports a file passes on. -/
def passedOn (content : List Char) : List String :=
  (exportAll.findAll content).map (Match.name · 1)

/-- The names under which a file passes on all exports of another. -/
def namespaceNames (content : List Char) : List String :=
  (exportNamespace.findAll content).map (Match.name · 1)

/-- The words before an exported declaration. -/
def exportWords : Pattern := opt (lit "export" ++ blanks1 ++ opt (lit "declare" ++ blanks1))

/-- The members of the interfaces and classes of a file that are among the exports, added to those
known. -/
def ownMembers (content : List Char) (exports : List String)
    (known : Catalog (Catalog Types.Member)) : Catalog (Catalog Types.Member) :=
  let add (read : List Char → Catalog Types.Member) (c : Catalog (Catalog Types.Member))
      (m : Match) :=
    if exports.contains (m.name 1) then c.insert (m.name 1) (read (m.group 2)) else c
  ((Types.classAfter exportWords).findAll content).foldl (add Types.classMembers)
    (((Types.interfaceAfter exportWords).findAll content).foldl (add Types.objectMembers) known)

/-! ## Files behind each other -/

/-- The nearest directory of packages at a directory or above it. -/
def packagesAbove? (files : FileSystem) (directory : Path) : Option Path :=
  (directory.ancestors.map (·.join "node_modules")).find? files.isDirectory

/-- A file whose exports are passed on, and whether it lies in another package. -/
structure ExportSource where
  /-- The place of the file. -/
  place : Path
  /-- Whether it lies in another package. -/
  foreign : Bool
  deriving DecidableEq, Repr

/-- The declaration file behind a relative specifier in a file. -/
def relativeSource? (files : FileSystem) (specifier : String) (file : Path) : Option Path :=
  let base := withoutEnding compiledEnding (file.parent.join specifier)
  (withEnding? files base).or (indexTypings? files (.ofString base))

/-- The declaration file of the package with the name in a directory of packages. -/
def packageTypings? (files : FileSystem) (packages : Path) (name : String) :
    Except Fault (Option Path) :=
  let directory := packages.join name
  if files.isDirectory directory then typings? files directory else .ok none

/-- The declaration file of the package that a specifier names, seen from a package. -/
def foreignSource? (files : FileSystem) (specifier : String) (package : Path) :
    Except Fault (Option Path) :=
  match packagesAbove? files package with
  | none => .ok none
  | some packages => packageTypings? files packages (splitSpecifier specifier).package

/-- The file behind a specifier; another package is entered only if `inForeign` is not set. -/
def exportSource? (files : FileSystem) (specifier : String) (file package : Path)
    (inForeign : Bool) : Except Fault (Option ExportSource) :=
  if stringBegins "." specifier then
    .ok ((relativeSource? files specifier file).map fun place => ⟨place, false⟩)
  else if inForeign then .ok none
  else
    (foreignSource? files specifier package).map fun found => found.map fun place => ⟨place, true⟩

/-- How deep files are followed. -/
def maxExportDepth : Nat := 3

/-- The exports of several files together. -/
def mergeApis (apis : List Api) : Api :=
  { exports := firstPerKey id (apis.flatMap (·.exports))
    members := (apis.flatMap (·.members.entries)).foldl (fun c e => c.insert e.1 e.2) .empty }

/-- The exports of a text and those that it passes on from other files. -/
def withPassedOn (content : List Char) (below : Api) : Api :=
  let exports := firstPerKey id
    (declaredNames content ++ listedNames content ++ below.exports ++ namespaceNames content)
  ⟨exports, ownMembers content exports below.members⟩

/-- The exports of a declaration file with the given text, where files are followed `depth` deep.
Packages are looked for from the directory `package`. -/
def apiOf (files : FileSystem) (package : Path) :
    Nat → Bool → Path → List Char → Except Fault Api
  | 0, _, _, content =>
    let exports := firstPerKey id (declaredNames content ++ listedNames content)
    .ok ⟨exports, ownMembers content exports .empty⟩
  | depth + 1, inForeign, file, content =>
    let apis := (passedOn content).mapM fun specifier =>
      (exportSource? files specifier file package inForeign).bind fun source =>
        match source.bind fun s => (files.readText? s.place).map fun text => (s, text) with
        | none => .ok none
        | some (s, text) =>
          (apiOf files package depth (inForeign || s.foreign) s.place text).map some
    apis.map fun apis => withPassedOn content (mergeApis (apis.filterMap id))

/-! ## Installed packages -/

/-- The exports read so far, by the places of the declaration files. -/
abbrev ApiCache := Catalog Api

/-- The place of a declaration file as the cache names it. -/
def cacheKey (files : FileSystem) (entry : Path) : String := (files.realPath entry).toString

/-- The exports of the package with the name, and the cache after they are read.  A declaration
file that was read before is not read again. -/
def resolveApi (files : FileSystem) (packages : Path) (name : String) (cache : ApiCache) :
    Except Fault (Option Api) × ApiCache :=
  match packageTypings? files packages name with
  | .error fault => (.error fault, cache)
  | .ok none => (.ok none, cache)
  | .ok (some entry) =>
    let key := cacheKey files entry
    match cache.find? key with
    | some api => (.ok (some api), cache)
    | none =>
      match files.readText? entry with
      | none => (.ok none, cache)
      | some content =>
        match apiOf files (packages.join name) maxExportDepth false entry content with
        | .error fault => (.error fault, cache)
        | .ok api => (.ok (some api), cache.insert key api)

end PlanAudit.Packages
