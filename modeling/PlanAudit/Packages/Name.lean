import PlanAudit.Text.Basic

/-!
# Module specifiers

The text after `from` in an import names a package and possibly a subpath inside it, unless it is
relative, an alias of the project or a module of the runtime.

## Main definitions

* `splitSpecifier`: package and subpath
* `isLocalSpecifier`: specifiers that name no package
-/

namespace PlanAudit.Packages

open PlanAudit.Text

/-- A package and a subpath inside it. -/
structure Specifier where
  /-- The name of the package, with its scope. -/
  package : String
  /-- The path inside the package. -/
  subpath : Option String
  deriving DecidableEq, Repr

/-- The parts joined by slashes, unless that gives the empty text. -/
def joinedSubpath (parts : List String) : Option String :=
  let path := "/".intercalate parts
  if path = "" then none else some path

/-- Splits a specifier into package and subpath; a scope and the name after it count as one. -/
def splitSpecifier (source : String) : Specifier :=
  if stringBegins "@" source then
    match segments source with
    | scope :: name :: rest => ⟨scope ++ "/" ++ name, joinedSubpath rest⟩
    | _ => ⟨source, none⟩
  else
    match segments source with
    | name :: rest => ⟨name, joinedSubpath rest⟩
    | [] => ⟨source, none⟩

/-- The modules that come with the runtime. -/
def runtimeModules : List String :=
  ["assert", "buffer", "child_process", "cluster", "console", "constants", "crypto", "dgram",
    "dns", "domain", "events", "fs", "http", "http2", "https", "module", "net", "os", "path",
    "perf_hooks", "process", "punycode", "querystring", "readline", "repl", "stream",
    "string_decoder", "sys", "timers", "tls", "trace_events", "tty", "url", "util", "v8", "vm",
    "worker_threads", "zlib", "test"]

/-- The beginnings of specifiers of the project's own files and of the runtime. -/
def localBeginnings : List String := ["./", "../", "@/", "~/", "#", "node:"]

/-- Whether a specifier is relative, an alias of the project or a module of the runtime. -/
def isLocalSpecifier (source : String) : Bool :=
  localBeginnings.any (stringBegins · source) ||
    (segments source).head?.any runtimeModules.contains

end PlanAudit.Packages
