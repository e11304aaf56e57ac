import PlanAudit.Pattern.Build
import PlanAudit.Reference

/-!
# Environment variables in a plan

Variables are read in a few fixed idioms of JavaScript, Python, Deno and Ruby.

## Main definitions

* `accessPatterns`: the idioms, in the order in which they are searched for
* `isRuntimeVariable`: names that no environment file is expected to define
* `mentions`: the variables that a plan reads
-/

namespace PlanAudit.Env

open PlanAudit.Text Pattern

/-- Names that the system or the runtime sets. -/
def runtimeVariables : List String :=
  ["NODE_ENV", "HOME", "PATH", "PWD", "USER", "SHELL", "LANG", "TERM", "CI", "PORT", "HOST",
    "HOSTNAME", "TZ", "EDITOR", "TMPDIR", "TEMP", "TMP"]

/-- Whether the system, the runtime or the package manager sets the variable. -/
def isRuntimeVariable (name : String) : Bool :=
  runtimeVariables.contains name || stringBegins "npm_" name

/-- A character with which the name of a variable may start. -/
def isNameStart (c : Char) : Bool := isUpperAscii c || isLowerAscii c || c == '_'

/-- The name of a variable: ASCII letters, digits and underscores. -/
def variableName : Pattern := capture 1 (one isNameStart ++ star (one isWordAscii))

/-- The name of a variable between quotation marks. -/
def quotedVariable : Pattern := quote ++ variableName ++ quote

/-- The idioms that read a variable. -/
def accessPatterns : List Pattern :=
  [lit "process.env." ++ variableName,
    lit "process.env[" ++ quotedVariable ++ char ']',
    lit "import.meta.env." ++ variableName,
    lit "os.environ[" ++ quotedVariable ++ char ']',
    lit "os.environ.get(" ++ blanks ++ quotedVariable,
    lit "os.getenv(" ++ blanks ++ quotedVariable,
    lit "Deno.env.get(" ++ blanks ++ quotedVariable,
    wordEdge ++ lit "ENV[" ++ quotedVariable ++ char ']',
    wordEdge ++ lit "ENV.fetch(" ++ blanks ++ quotedVariable]

/-- The mention made by a match of an idiom. -/
def mentionOf (m : Match) : Mention :=
  let name := m.name 1
  { raw := name, kind := .env, offset := some m.start, name := some name }

/-- The variables that the plan reads, each once, runtime variables left out. -/
def mentions (plan : List Char) : List Mention :=
  firstPerKey Mention.raw
    ((accessPatterns.flatMap fun p => (p.findAll plan).map mentionOf).filter
      fun m => !isRuntimeVariable m.raw)

end PlanAudit.Env
