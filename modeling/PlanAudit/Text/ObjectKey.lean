import PlanAudit.Text.Brackets

/-!
# Keys of object literals

A reader of object literals that never fails: it walks over the text, keeps count of the open
brackets and reports each key of one nesting level with the span of its value.

## Main definitions

* `ObjectKey`: a key and the span of its value
* `objectKeys`: the keys at one nesting level of the literal that opened before a position
* `topLevelKeys`: the names of the keys of the literal itself
-/

namespace PlanAudit.Text

/-- A key of an object literal and the span of its value. -/
structure ObjectKey where
  /-- The name before the colon. -/
  key : String
  /-- The position after the colon. -/
  valueStart : Nat
  /-- The position of what ends the value. -/
  valueEnd : Nat
  deriving DecidableEq, Repr

/-- What the reader knows between two characters. -/
structure KeyScan where
  /-- The number of brackets open inside the literal. -/
  level : Nat
  /-- The characters of a key read so far, in reverse. -/
  key : List Char
  /-- Whether a key may stand here. -/
  inKey : Bool
  /-- A key whose value has not ended, in reverse, with the start of the value. -/
  pending : Option (List Char × Nat)
  deriving DecidableEq, Repr

namespace KeyScan

/-- The state just inside the opening brace. -/
def initial : KeyScan := ⟨0, [], true, none⟩

/-- The key whose value ends at `stop`, if one is waiting. -/
def entry (s : KeyScan) (stop : Nat) : List ObjectKey :=
  match s.pending with
  | some (key, start) => [⟨String.ofList key.reverse, start, stop⟩]
  | none => []

/-- The keys reported at the character `c` at position `i`, and the state after it; no state when
the brace that closes the literal was read. -/
def step (depth i : Nat) (s : KeyScan) (c : Char) : List ObjectKey × Option KeyScan :=
  if isOpener c then
    ([], some { s with level := s.level + 1, key := [], inKey := c == '{' && s.level + 1 == depth })
  else if isCloser c then
    let done := if s.level = depth then s.entry i else []
    let pending := if s.level = depth then none else s.pending
    match s.level with
    | 0 => (done, none)
    | level + 1 => (done, some { s with level := level, pending := pending })
  else if s.level = depth then
    if c = ':' ∧ s.inKey ∧ s.key ≠ [] then
      (s.entry (i - s.key.length), some ⟨s.level, [], false, some (s.key, i + 1)⟩)
    else if c = ',' then (s.entry i, some ⟨s.level, [], true, none⟩)
    else if c = '\n' then ([], some { s with key := [], inKey := true })
    else if s.inKey ∧ (isAlphanumeric c ∨ c = '_' ∨ c = '$') then
      ([], some { s with key := c :: s.key })
    else if s.inKey ∧ ¬isBlank c then ([], some { s with key := [] })
    else ([], some s)
  else ([], some s)

end KeyScan

/-- The keys reported by a reader in state `s` on a text that starts at position `i`. -/
def objectKeysFrom (depth i : Nat) (s : KeyScan) : List Char → List ObjectKey
  | [] => s.entry i
  | c :: rest =>
    match s.step depth i c with
    | (found, none) => found
    | (found, some s') => found ++ objectKeysFrom depth (i + 1) s' rest

/-- The keys at nesting level `depth` of the literal whose opening brace stands before `start`. -/
def objectKeys (text : List Char) (start depth : Nat) : List ObjectKey :=
  objectKeysFrom depth start .initial (text.drop start)

/-- The names of the keys of the literal whose opening brace stands before `start`. -/
def topLevelKeys (text : List Char) (start : Nat) : List String :=
  (objectKeys text start 0).map (·.key)

end PlanAudit.Text
