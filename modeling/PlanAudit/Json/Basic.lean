import PlanAudit.Text.Basic

/-!
# JSON values

The value of a JSON text.  Members of an object keep their order, since package manifests give
meaning to it; a number is kept exactly as it is written.

## Main definitions

* `Json`: the values
* `Json.member?`: the member of an object under a name
* `Json.ofMembers`: an object from members in the order read
-/

namespace PlanAudit

/-- A number of a JSON text. -/
inductive JsonNumber where
  /-- A number written without fraction and exponent. -/
  | integer (n : Int)
  /-- The number `mantissa · 10 ^ exponent`, written with a fraction or an exponent. -/
  | decimal (mantissa : Int) (exponent : Int)
  /-- The word `NaN`. -/
  | notANumber
  /-- The word `Infinity`, possibly with a minus sign. -/
  | infinite (negative : Bool)
  deriving DecidableEq, Repr

/-- A JSON value. -/
inductive Json where
  | null
  | bool (b : Bool)
  | number (n : JsonNumber)
  | string (s : String)
  | array (items : List Json)
  | object (members : List (String × Json))

namespace Json

/-- The members with `value` under `name`; an old value gives way and keeps its place. -/
def setMember (name : String) (value : Json) : List (String × Json) → List (String × Json)
  | [] => [(name, value)]
  | (n, v) :: rest => if n = name then (n, value) :: rest else (n, v) :: setMember name value rest

/-- The object of the members in the order read.  A repeated name keeps its first place and takes
its last value. -/
def ofMembers (members : List (String × Json)) : Json :=
  object (members.foldl (fun acc m => setMember m.1 m.2 acc) [])

/-- The members of an object; other values have none. -/
def members : Json → List (String × Json)
  | object ms => ms
  | _ => []

/-- The member of an object under the name; the last one, if the name is repeated. -/
def member? (j : Json) (name : String) : Option Json := j.members.reverse.lookup name

/-- The text of a string value. -/
def string? : Json → Option String
  | string s => some s
  | _ => none

/-- The items of an array value. -/
def items? : Json → Option (List Json)
  | array items => some items
  | _ => none

/-- Whether the value is an object. -/
def isObject : Json → Bool
  | object _ => true
  | _ => false

end Json

end PlanAudit
