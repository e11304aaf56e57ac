import PlanAudit.Env.Mentions

/-!
# Environment files

An environment file assigns values to variables, one on a line.

## Main definitions

* `definedKeys`: the variables that a file defines, in order
-/

namespace PlanAudit.Env

open PlanAudit.Text Pattern

/-- An assignment at the start of a line. -/
def assignment : Pattern := opt (lit "export" ++ blanks1) ++ variableName ++ blanks ++ char '='

/-- The variable defined by a line without white space around it, if it defines one. -/
def keyOf? (line : List Char) : Option String :=
  if beginsWith ['#'] line then none else (assignment.matchStart line).map (Match.name · 1)

/-- The variables that a file defines, in order; comments and blank lines define none. -/
def definedKeys (content : List Char) : List String :=
  (splitLines content).filterMap fun line => keyOf? (strip line)

end PlanAudit.Env
