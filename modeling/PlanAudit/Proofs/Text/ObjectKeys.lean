import PlanAudit.Proofs.Text.Words
import PlanAudit.Text.ObjectKey

/-!
# Keys that are read of an object literal

An object literal is written as properties with commas between them.  As long as the brackets of
every value are closed and no comma stands outside them, the reader of object literals reports the
keys in their order and nothing else: inside a value it is never in front of a key.  The span that
it reports with a key holds all that stands between the colon and what ends the value.

## Main definitions

* `KeyName`: names as they are written
* `closesBrackets`: a text that closes its brackets and has no comma outside them
* `ClosesOnLine`: the same for a text that does not break the line outside its brackets either
* `ObjectItem`: a key with its value as it is written
* `Property`, `ObjectText`: an object literal as it is written
* `ObjectLayout`: the same with white space wherever it may stand
* `SpansItem`: the span of an entry holds what stands behind the colon of an item

## Main results

* `objectKeysFrom_value`: a value is passed over
* `objectKeysFrom_front`: behind a value the reader waits for its end
* `keys_objectText`: the keys that are read are those that are written
* `objectKeysFrom_joinItems`: the same with their spans, whatever follows the closing brace
* `objectKeys_layout`: an object literal is read as it is written
-/

namespace PlanAudit.Text

/-! ## Object literals -/

/-- A character of a key. -/
def isKeyChar (c : Char) : Bool := isWord c || c == '$'

/-- With `level` brackets open, the text closes them all and none besides, and it has no comma
outside brackets. -/
def closesBrackets : Nat → List Char → Bool
  | level, [] => level == 0
  | level, c :: rest =>
    if isOpener c then closesBrackets (level + 1) rest
    else if isCloser c then
      match level with
      | 0 => false
      | level + 1 => closesBrackets level rest
    else (level != 0 || c != ',') && closesBrackets level rest

/-- The opening less the closing brackets of a text, all three kinds counted together. -/
def bracketDepth : List Char → Int
  | [] => 0
  | c :: w => bracketStep c + bracketDepth w

@[simp] theorem bracketDepth_nil : bracketDepth [] = 0 := rfl

@[simp] theorem bracketDepth_cons (c : Char) (w : List Char) :
    bracketDepth (c :: w) = bracketStep c + bracketDepth w := rfl

theorem bracketDepth_append (u v : List Char) :
    bracketDepth (u ++ v) = bracketDepth u + bracketDepth v := by
  induction u with
  | nil => simp
  | cons c u ih => rw [List.cons_append, bracketDepth_cons, bracketDepth_cons, ih, Int.add_assoc]

theorem bracketDepth_eq_zero {w : List Char} (h : ∀ c ∈ w, bracketStep c = 0) :
    bracketDepth w = 0 := by
  induction w with
  | nil => rfl
  | cons c w ih =>
    obtain ⟨hc, hw⟩ := List.forall_mem_cons.mp h
    rw [bracketDepth_cons, hc, ih hw, Int.add_zero]

/-- With `level` brackets open in front of it, the text closes them all and none besides, and it has
neither comma nor line feed outside brackets. -/
structure ClosesOnLine (level : Nat) (w : List Char) : Prop where
  nonneg : ∀ u, u <+: w → 0 ≤ level + bracketDepth u
  closed : level + bracketDepth w = 0
  unbroken : ∀ u c v, w = u ++ c :: v → level + bracketDepth u = 0 → c ≠ ',' ∧ c ≠ '\n'

/-- A name of a program: of a variable, of a column or of a property. -/
structure KeyName where
  /-- The characters. -/
  chars : List Char
  /-- There are some. -/
  ne_nil : chars ≠ []
  /-- A name may hold them. -/
  isKey : ∀ c ∈ chars, isKeyChar c = true

/-- The name as a string. -/
def KeyName.string (n : KeyName) : String := String.ofList n.chars

theorem KeyName.not_mem (n : KeyName) {x : Char} (hx : isKeyChar x = false) : x ∉ n.chars := by
  intro h
  rw [n.isKey x h] at hx
  cases hx

/-- A key of an object literal with its value. -/
structure ObjectItem where
  /-- What stands in front. -/
  indent : Blanks
  /-- The key. -/
  key : KeyName
  /-- What stands between the key and the colon. -/
  gap : Blanks
  /-- It does not break the line. -/
  gap_unbroken : '\n' ∉ gap.chars
  /-- The value. -/
  value : List Char
  /-- Its brackets are closed, and neither comma nor line feed stands outside them. -/
  value_closed : ClosesOnLine 0 value
  /-- What stands behind the value. -/
  pad : Blanks

namespace ObjectItem

variable (item : ObjectItem)

/-- The characters up to the colon. -/
def head : List Char := item.indent.chars ++ (item.key.chars ++ (item.gap.chars ++ [':']))

/-- The characters up to the end of the value. -/
def front : List Char := item.head ++ item.value

/-- The name of the key. -/
def name : String := item.key.string

/-- What stands behind the colon. -/
def text : List Char := item.value ++ item.pad.chars

/-- The characters. -/
def chars : List Char := item.head ++ item.text

end ObjectItem

/-- A property of an object literal. -/
structure Property where
  /-- What stands in front. -/
  indent : Blanks
  /-- The key. -/
  key : KeyName
  /-- What stands between the key and the colon. -/
  gap : Blanks
  /-- It does not break the line. -/
  gap_unbroken : '\n' ∉ gap.chars
  /-- The value. -/
  value : List Char
  /-- Its brackets are closed, and no comma stands outside them. -/
  value_closed : closesBrackets 0 value = true
  /-- It stands on one line. -/
  value_unbroken : '\n' ∉ value

/-- The characters of the property. -/
def Property.chars (p : Property) : List Char :=
  p.indent.chars ++ (p.key.chars ++ (p.gap.chars ++ ':' :: p.value))

/-- The name of the property. -/
def Property.name (p : Property) : String := p.key.string

/-- An object literal behind its opening brace. -/
structure ObjectText where
  /-- The properties. -/
  properties : List Property
  /-- Whether a comma follows the last one. -/
  comma : Bool
  /-- What stands in front of the closing brace. -/
  space : Blanks

/-- What is written behind the properties. -/
def ObjectText.close (o : ObjectText) : List Char :=
  (if o.comma then [','] else []) ++ (o.space.chars ++ ['}'])

/-- The properties with commas between them, in front of `close`. -/
def joinProperties (close : List Char) : List Property → List Char
  | [] => close
  | [p] => p.chars ++ close
  | p :: ps => p.chars ++ ',' :: joinProperties close ps

/-- The characters of the object literal behind its opening brace. -/
def ObjectText.chars (o : ObjectText) : List Char := joinProperties o.close o.properties

/-- The names of the properties in their order. -/
def ObjectText.names (o : ObjectText) : List String := o.properties.map Property.name

/-! ## Brackets on a line -/

theorem bracketStep_cases (c : Char) :
    isOpener c = true ∧ bracketStep c = 1 ∨
      isOpener c = false ∧ isCloser c = true ∧ bracketStep c = -1 ∨
      isOpener c = false ∧ isCloser c = false ∧ bracketStep c = 0 := by
  unfold bracketStep
  cases isOpener c <;> cases isCloser c <;> simp

theorem bracketStep_eq_zero {c : Char} (h : isOpener c = false ∧ isCloser c = false) :
    bracketStep c = 0 := by
  simp [bracketStep, h.1, h.2]

theorem closesOnLine_nil {level : Nat} : ClosesOnLine level [] ↔ level = 0 := by
  constructor
  · intro h
    simpa using h.closed
  · rintro rfl
    refine ⟨fun u hu => ?_, rfl, fun u c v h => by simp at h⟩
    rw [List.prefix_nil.mp hu]
    exact Int.le_refl 0

theorem add_bracketDepth_cons {level level' : Nat} {c : Char}
    (h : (level' : Int) = level + bracketStep c) (u : List Char) :
    (level : Int) + bracketDepth (c :: u) = level' + bracketDepth u := by
  rw [bracketDepth_cons, ← Int.add_assoc, h]

/-- Behind its first character a text closes the brackets that are open there. -/
theorem closesOnLine_cons {level : Nat} {c : Char} {w : List Char} :
    ClosesOnLine level (c :: w) ↔ (level = 0 → c ≠ ',' ∧ c ≠ '\n') ∧
      ∃ level' : Nat, (level' : Int) = level + bracketStep c ∧ ClosesOnLine level' w := by
  constructor
  · intro h
    have hfirst := h.nonneg [c] ⟨w, rfl⟩
    rw [bracketDepth_cons, bracketDepth_nil, Int.add_zero] at hfirst
    obtain ⟨level', hlevel⟩ := Int.eq_ofNat_of_zero_le hfirst
    have hrest := add_bracketDepth_cons hlevel.symm
    refine ⟨fun hzero => h.unbroken [] c w rfl (by simpa using hzero), level', hlevel.symm,
      fun u hu => ?_, ?_, fun u d v hsplit hdepth => ?_⟩
    · rw [← hrest]
      exact h.nonneg (c :: u) (List.cons_prefix_cons.mpr ⟨rfl, hu⟩)
    · rw [← hrest]
      exact h.closed
    · rw [← hrest] at hdepth
      exact h.unbroken (c :: u) d v (congrArg _ hsplit) hdepth
  · rintro ⟨hfree, level', hlevel, h⟩
    have hrest := add_bracketDepth_cons hlevel
    refine ⟨fun u hu => ?_, ?_, fun u d v hsplit hdepth => ?_⟩
    · cases u with
      | nil => simp
      | cons x u =>
        obtain ⟨rfl, hbehind⟩ := List.cons_prefix_cons.mp hu
        rw [hrest]
        exact h.nonneg u hbehind
    · rw [hrest]
      exact h.closed
    · cases u with
      | nil =>
        obtain ⟨rfl, -⟩ := List.cons.inj hsplit
        exact hfree (by simpa using hdepth)
      | cons x u =>
        obtain ⟨rfl, hbehind⟩ := List.cons.inj hsplit
        rw [hrest] at hdepth
        exact h.unbroken u d v hbehind hdepth

/-- What closes its brackets closes behind its first character those that are open there. -/
theorem closesBrackets_cons {level : Nat} {c : Char} {w : List Char}
    (h : closesBrackets level (c :: w) = true) : (level = 0 → c ≠ ',') ∧
      ∃ level' : Nat, (level' : Int) = level + bracketStep c ∧ closesBrackets level' w = true := by
  rcases bracketStep_cases c with
    ⟨hopen, hstep⟩ | ⟨hopen, hclose, hstep⟩ | ⟨hopen, hclose, hstep⟩
  · simp only [closesBrackets, hopen, if_true] at h
    refine ⟨fun _ => ?_, level + 1, by rw [hstep]; rfl, h⟩
    rintro rfl
    cases hopen
  · cases level with
    | zero => simp [closesBrackets, hopen, hclose] at h
    | succ level =>
      simp only [closesBrackets, hopen, hclose, Bool.false_eq_true, if_false, if_true] at h
      exact ⟨nofun, level, by rw [hstep]; omega, h⟩
  · simp only [closesBrackets, hopen, hclose, Bool.false_eq_true, if_false,
      Bool.and_eq_true] at h
    refine ⟨?_, level, by rw [hstep, Int.add_zero], h.2⟩
    rintro rfl
    simpa using h.1

/-- On one line the brackets of a text are all that can be open. -/
theorem closesOnLine_of_closesBrackets {level : Nat} {w : List Char}
    (hw : closesBrackets level w = true) (hfeed : '\n' ∉ w) : ClosesOnLine level w := by
  induction w generalizing level with
  | nil => exact closesOnLine_nil.mpr (by simpa [closesBrackets] using hw)
  | cons c w ih =>
    obtain ⟨hne, hfeed⟩ := not_or.mp (mt List.mem_cons.mpr hfeed)
    obtain ⟨hfree, level', hlevel, hrest⟩ := closesBrackets_cons hw
    exact closesOnLine_cons.mpr
      ⟨fun hzero => ⟨hfree hzero, Ne.symm hne⟩, level', hlevel, ih hrest hfeed⟩

/-! ## What the reader does with the parts of a property -/

section Parts

variable {pending : Option (List Char × Nat)} {t : List Char}

theorem objectKeysFrom_cons {i : Nat} {s s' : KeyScan} {c : Char}
    (h : s.step 0 i c = ([], some s')) :
    objectKeysFrom 0 i s (c :: t) = objectKeysFrom 0 (i + 1) s' t := by
  rw [objectKeysFrom, h]
  rfl

/-- What leaves the reader as it is, is passed over. -/
theorem objectKeysFrom_append {w : List Char} {s : KeyScan}
    (h : ∀ c ∈ w, ∀ i, s.step 0 i c = ([], some s)) (i : Nat) :
    objectKeysFrom 0 i s (w ++ t) = objectKeysFrom 0 (i + w.length) s t := by
  induction w generalizing i with
  | nil => rfl
  | cons c w ih =>
    obtain ⟨hc, hw⟩ := List.forall_mem_cons.mp h
    rw [List.cons_append, objectKeysFrom_cons (hc i), ih hw, List.length_cons, Nat.add_assoc,
      Nat.add_comm 1]

/-- A class of characters without brackets. -/
theorem not_bracket_of_class {p : Char → Bool}
    (hp : ['{', '[', '(', '}', ']', ')'].all (!p ·) = true) {c : Char}
    (hc : p c = true) : isOpener c = false ∧ isCloser c = false := by
  have hne : ∀ x ∈ ['{', '[', '(', '}', ']', ')'], c ≠ x := by
    rintro x hx rfl
    simpa [hc] using List.all_eq_true.mp hp c hx
  constructor
  · simp [isOpener, hne '{' (by decide), hne '[' (by decide), hne '(' (by decide)]
  · simp [isCloser, hne '}' (by decide), hne ']' (by decide), hne ')' (by decide)]

/-- Outside brackets white space lets a key begin if it ends the line, and changes nothing else. -/
theorem step_of_isBlank {c : Char} (hc : isBlank c = true) (i : Nat) (read : List Char)
    (inKey : Bool) :
    KeyScan.step 0 i ⟨0, read, inKey, pending⟩ c =
      ([], some (if c = '\n' then ⟨0, [], true, pending⟩ else ⟨0, read, inKey, pending⟩)) := by
  have hne : ∀ x, isBlank x = false → c ≠ x := by
    rintro x hx rfl
    rw [hc] at hx
    cases hx
  obtain ⟨hopen, hclose⟩ := not_bracket_of_class (by decide) hc
  have hword : isAlphanumeric c = false ∧ c ≠ '_' := by
    simpa [isWord] using isWord_eq_false_of_isBlank hc
  simp only [KeyScan.step, hopen, hclose, hc, hword, hne ':' (by decide), hne ',' (by decide),
    hne '$' (by decide), Bool.false_eq_true, false_and, and_false, or_self, not_true_eq_false,
    if_false, if_true]
  split <;> rfl

/-- A character of a key is collected. -/
theorem step_of_isKeyChar {c : Char} (hc : isKeyChar c = true) (i : Nat) (read : List Char) :
    KeyScan.step 0 i ⟨0, read, true, pending⟩ c = ([], some ⟨0, c :: read, true, pending⟩) := by
  have hne : ∀ x, isKeyChar x = false → c ≠ x := by
    rintro x hx rfl
    rw [hc] at hx
    cases hx
  obtain ⟨hopen, hclose⟩ := not_bracket_of_class (by decide) hc
  have hkey : isAlphanumeric c = true ∨ c = '_' ∨ c = '$' := by
    simpa [isKeyChar, isWord, or_assoc] using hc
  simp [KeyScan.step, hopen, hclose, hkey, hne ':' (by decide), hne ',' (by decide),
    hne '\n' (by decide)]

theorem objectKeysFrom_key {w : List Char} (hw : ∀ c ∈ w, isKeyChar c = true) (i : Nat)
    (read : List Char) :
    objectKeysFrom 0 i ⟨0, read, true, pending⟩ (w ++ t) =
      objectKeysFrom 0 (i + w.length) ⟨0, w.reverse ++ read, true, pending⟩ t := by
  induction w generalizing i read with
  | nil => rfl
  | cons c w ih =>
    obtain ⟨hc, hw⟩ := List.forall_mem_cons.mp hw
    rw [List.cons_append, objectKeysFrom_cons (step_of_isKeyChar hc i read), ih hw,
      List.length_cons, Nat.add_assoc, Nat.add_comm 1, List.reverse_cons, List.append_assoc,
      List.singleton_append]

/-- **A value is passed over**: behind it no bracket is open, and its key still waits. -/
theorem objectKeysFrom_value {w : List Char} {level : Nat} (hw : ClosesOnLine level w) (i : Nat) :
    objectKeysFrom 0 i ⟨level, [], false, pending⟩ (w ++ t) =
      objectKeysFrom 0 (i + w.length) ⟨0, [], false, pending⟩ t := by
  -- Induction on the value; the brackets that are open are those that the reader counts.
  induction w generalizing level i with
  | nil =>
    obtain rfl := closesOnLine_nil.mp hw
    rfl
  | cons c w ih =>
    obtain ⟨hfree, level', hlevel, hrest⟩ := closesOnLine_cons.mp hw
    have hstep : KeyScan.step 0 i ⟨level, [], false, pending⟩ c =
        ([], some ⟨level', [], false, pending⟩) := by
      rcases bracketStep_cases c with ⟨hopen, hc⟩ | ⟨hopen, hclose, hc⟩ | ⟨hopen, hclose, hc⟩
      · obtain rfl : level' = level + 1 := by omega
        simp [KeyScan.step, hopen]
      · obtain rfl : level = level' + 1 := by omega
        simp [KeyScan.step, hopen, hclose]
      · obtain rfl : level' = level := by omega
        cases level' with
        | zero => simp [KeyScan.step, hopen, hclose, hfree rfl]
        | succ level => simp [KeyScan.step, hopen, hclose]
    rw [List.cons_append, objectKeysFrom_cons hstep, ih hrest, List.length_cons, Nat.add_assoc,
      Nat.add_comm 1]

/-- White space behind a value leaves its key waiting. -/
theorem objectKeysFrom_blanks {w : List Char} (hw : ∀ c ∈ w, isBlank c = true) (i : Nat)
    (inKey : Bool) (pending : Option (List Char × Nat)) (t : List Char) :
    ∃ inKey', objectKeysFrom 0 i ⟨0, [], inKey, pending⟩ (w ++ t) =
      objectKeysFrom 0 (i + w.length) ⟨0, [], inKey', pending⟩ t := by
  induction w generalizing i inKey with
  | nil => exact ⟨inKey, rfl⟩
  | cons c w ih =>
    obtain ⟨hc, hw⟩ := List.forall_mem_cons.mp hw
    obtain ⟨inKey', hread⟩ := ih hw (i + 1) (if c = '\n' then true else inKey)
    refine ⟨inKey', ?_⟩
    rw [List.cons_append, objectKeysFrom_cons (step_of_isBlank hc i [] inKey), List.length_cons,
      ← Nat.add_assoc, Nat.add_right_comm, ← hread]
    split <;> rfl

/-- A comma ends a value and lets a key begin. -/
theorem objectKeysFrom_comma (i : Nat) (inKey : Bool) :
    objectKeysFrom 0 i ⟨0, [], inKey, pending⟩ (',' :: t) =
      KeyScan.entry ⟨0, [], inKey, pending⟩ i ++ objectKeysFrom 0 (i + 1) .initial t := by
  have hstep : KeyScan.step 0 i ⟨0, [], inKey, pending⟩ ',' =
      (KeyScan.entry ⟨0, [], inKey, pending⟩ i, some .initial) := by
    simp [KeyScan.step, isOpener, isCloser, KeyScan.initial]
  rw [objectKeysFrom, hstep]

/-- The closing brace ends a value, and nothing behind it is read. -/
theorem objectKeysFrom_brace (i : Nat) (inKey : Bool) :
    objectKeysFrom 0 i ⟨0, [], inKey, pending⟩ ('}' :: t) =
      KeyScan.entry ⟨0, [], inKey, pending⟩ i := by
  have hstep : KeyScan.step 0 i ⟨0, [], inKey, pending⟩ '}' =
      (KeyScan.entry ⟨0, [], inKey, pending⟩ i, none) := by
    simp [KeyScan.step, isOpener, isCloser]
  rw [objectKeysFrom, hstep]

/-- **Behind a value its key waits**, with the position behind the colon. -/
theorem objectKeysFrom_front (item : ObjectItem) (i : Nat) :
    objectKeysFrom 0 i .initial (item.front ++ t) =
      objectKeysFrom 0 (i + item.front.length)
        ⟨0, [], false, some (item.key.chars.reverse, i + item.head.length)⟩ t := by
  let colon := i + item.indent.chars.length + item.key.chars.length + item.gap.chars.length
  have hcolon : KeyScan.step 0 colon ⟨0, item.key.chars.reverse, true, none⟩ ':' =
      ([], some ⟨0, [], false, some (item.key.chars.reverse, colon + 1)⟩) := by
    simp [KeyScan.step, isOpener, isCloser, item.key.ne_nil, KeyScan.entry]
  have hindent : ∀ c ∈ item.indent.chars, ∀ i,
      KeyScan.initial.step 0 i c = ([], some .initial) := by
    intro c hc i
    rw [KeyScan.initial, step_of_isBlank (item.indent.blank c hc), ite_self]
  have hgap : ∀ c ∈ item.gap.chars, ∀ i,
      KeyScan.step 0 i ⟨0, item.key.chars.reverse, true, none⟩ c =
        ([], some ⟨0, item.key.chars.reverse, true, none⟩) := by
    intro c hc i
    rw [step_of_isBlank (item.gap.blank c hc), if_neg]
    rintro rfl
    exact item.gap_unbroken hc
  have hhead : i + item.head.length = colon + 1 := by
    simp [ObjectItem.head, colon, Nat.add_assoc]
  rw [ObjectItem.front, List.length_append, ← Nat.add_assoc, hhead, ObjectItem.head]
  simp only [List.append_assoc, List.singleton_append]
  rw [objectKeysFrom_append hindent, KeyScan.initial, objectKeysFrom_key item.key.isKey,
    List.append_nil, objectKeysFrom_append hgap, List.cons_append]
  exact (objectKeysFrom_cons hcolon).trans (objectKeysFrom_value item.value_closed _)

end Parts

/-! ## Whole literals -/

/-- The name of a key that waits for the end of its value. -/
def waitingNames (pending : Option (List Char × Nat)) : List String :=
  (pending.map fun p => String.ofList p.1.reverse).toList

theorem map_key_entry (s : KeyScan) (stop : Nat) :
    (s.entry stop).map ObjectKey.key = waitingNames s.pending := by
  unfold KeyScan.entry
  cases s.pending <;> rfl

/-- Behind the last property nothing is reported but the key that waits. -/
theorem keys_space {w t : List Char} (hw : ∀ c ∈ w, isBlank c = true) (i : Nat) (inKey : Bool)
    (pending : Option (List Char × Nat)) :
    (objectKeysFrom 0 i ⟨0, [], inKey, pending⟩ (w ++ '}' :: t)).map ObjectKey.key =
      waitingNames pending := by
  obtain ⟨inKey', hread⟩ := objectKeysFrom_blanks hw i inKey pending ('}' :: t)
  rw [hread, objectKeysFrom_brace, map_key_entry]

/-- The property as a key with its value. -/
def Property.item (p : Property) : ObjectItem where
  indent := p.indent
  key := p.key
  gap := p.gap
  gap_unbroken := p.gap_unbroken
  value := p.value
  value_closed := closesOnLine_of_closesBrackets p.value_closed p.value_unbroken
  pad := .none

theorem Property.front_item (p : Property) : p.item.front = p.chars := by
  simp [ObjectItem.front, ObjectItem.head, Property.item, Property.chars]

/-- The key of a property waits behind its value. -/
theorem objectKeysFrom_property (p : Property) (i : Nat) (t : List Char) :
    ∃ start j, objectKeysFrom 0 i .initial (p.chars ++ t) =
      objectKeysFrom 0 j ⟨0, [], false, some (p.key.chars.reverse, start)⟩ t :=
  ⟨_, _, p.front_item ▸ objectKeysFrom_front p.item i⟩

/-- A comma ends a value and lets a key begin. -/
theorem keys_comma (i : Nat) (inKey : Bool) (pending : Option (List Char × Nat)) (t : List Char) :
    (objectKeysFrom 0 i ⟨0, [], inKey, pending⟩ (',' :: t)).map ObjectKey.key =
      waitingNames pending ++ (objectKeysFrom 0 (i + 1) .initial t).map ObjectKey.key := by
  rw [objectKeysFrom_comma, List.map_append, map_key_entry]

theorem keys_close (o : ObjectText) (i : Nat) (inKey : Bool) (pending : Option (List Char × Nat))
    (t : List Char) :
    (objectKeysFrom 0 i ⟨0, [], inKey, pending⟩ (o.close ++ t)).map ObjectKey.key =
      waitingNames pending := by
  rw [ObjectText.close, List.append_assoc, List.append_assoc]
  cases o.comma with
  | false => exact keys_space o.space.blank i inKey pending
  | true =>
    refine (keys_comma i inKey pending _).trans ?_
    have hspace := keys_space (t := t) o.space.blank (i + 1) true none
    rw [KeyScan.initial]
    exact (congrArg _ hspace).trans (List.append_nil _)

theorem keys_joinProperties (o : ObjectText) (ps : List Property) (i : Nat) (t : List Char) :
    (objectKeysFrom 0 i .initial (joinProperties o.close ps ++ t)).map ObjectKey.key =
      ps.map Property.name := by
  -- Induction along the properties, with the last one by itself: no comma need follow it.
  induction ps generalizing i with
  | nil => exact keys_close o i true none t
  | cons p ps ih =>
    have hwaiting (start : Nat) : waitingNames (some (p.key.chars.reverse, start)) = [p.name] := by
      simp [waitingNames, Property.name, KeyName.string]
    cases ps with
    | nil =>
      obtain ⟨start, j, hread⟩ := objectKeysFrom_property p i (o.close ++ t)
      rw [joinProperties, List.append_assoc, hread, keys_close, hwaiting]
      rfl
    | cons q ps =>
      obtain ⟨start, j, hread⟩ :=
        objectKeysFrom_property p i (',' :: (joinProperties o.close (q :: ps) ++ t))
      rw [joinProperties, List.append_assoc, List.cons_append, hread, keys_comma, hwaiting, ih]
      · rfl
      · exact List.cons_ne_nil q ps

/-- **The keys that are read of an object literal are those that are written**, in their order,
whatever follows its closing brace. -/
theorem keys_objectText (o : ObjectText) (before after : List Char) :
    topLevelKeys (before ++ (o.chars ++ after)) before.length = o.names := by
  rw [topLevelKeys, objectKeys, List.drop_left]
  exact keys_joinProperties o o.properties before.length after

/-! ## Layouts -/

/-- An object literal behind its opening brace. -/
structure ObjectLayout where
  /-- The keys with their values. -/
  items : List ObjectItem
  /-- What follows a comma behind the last one, if there is such a comma. -/
  trailing : Option Blanks

/-- What is written behind the items. -/
def ObjectLayout.close (o : ObjectLayout) : List Char :=
  match o.trailing with
  | none => ['}']
  | some space => ',' :: (space.chars ++ ['}'])

/-- The items with commas between them, in front of `close`. -/
def joinItems (close : List Char) : List ObjectItem → List Char
  | [] => close
  | [item] => item.chars ++ close
  | item :: items => item.chars ++ ',' :: joinItems close items

/-- The characters of the object literal behind its opening brace. -/
def ObjectLayout.chars (o : ObjectLayout) : List Char := joinItems o.close o.items

/-- The key of an item that starts at a position, with the span of what stands behind its colon. -/
def ObjectItem.entry (item : ObjectItem) (start : Nat) : ObjectKey :=
  ⟨item.name, start + item.head.length, start + item.chars.length⟩

/-- The keys of items that are joined from a position on, with their spans. -/
def entriesFrom : Nat → List ObjectItem → List ObjectKey
  | _, [] => []
  | start, item :: items => item.entry start :: entriesFrom (start + item.chars.length + 1) items

theorem key_entriesFrom (start : Nat) (items : List ObjectItem) :
    (entriesFrom start items).map ObjectKey.key = items.map ObjectItem.name := by
  induction items generalizing start with
  | nil => rfl
  | cons item items ih => rw [entriesFrom, List.map_cons, List.map_cons, ih, ObjectItem.entry]

/-! ## What is reported of a layout -/

/-- The key that waits behind an item. -/
def ObjectItem.waiting (item : ObjectItem) (start : Nat) : Option (List Char × Nat) :=
  some (item.key.chars.reverse, start + item.head.length)

theorem ObjectItem.entry_waiting (item : ObjectItem) (start : Nat) (inKey : Bool) :
    KeyScan.entry ⟨0, [], inKey, item.waiting start⟩ (start + item.chars.length) =
      [item.entry start] := by
  simp [KeyScan.entry, waiting, ObjectItem.entry, name, KeyName.string]

/-- Behind an item its key waits. -/
theorem objectKeysFrom_item (item : ObjectItem) (i : Nat) (t : List Char) :
    ∃ inKey, objectKeysFrom 0 i .initial (item.chars ++ t) =
      objectKeysFrom 0 (i + item.chars.length) ⟨0, [], inKey, item.waiting i⟩ t := by
  have hchars : item.chars = item.front ++ item.pad.chars := by
    simp [ObjectItem.chars, ObjectItem.front, ObjectItem.text]
  obtain ⟨inKey, hpad⟩ := objectKeysFrom_blanks item.pad.blank (i + item.front.length) false
    (item.waiting i) t
  refine ⟨inKey, ?_⟩
  rw [hchars, List.append_assoc, objectKeysFrom_front, List.length_append, ← Nat.add_assoc, ← hpad]
  rfl

/-- What is written behind the items ends the last value and no more. -/
theorem objectKeysFrom_close (o : ObjectLayout) (i : Nat) (inKey : Bool)
    (pending : Option (List Char × Nat)) (t : List Char) :
    objectKeysFrom 0 i ⟨0, [], inKey, pending⟩ (o.close ++ t) =
      KeyScan.entry ⟨0, [], inKey, pending⟩ i := by
  unfold ObjectLayout.close
  cases o.trailing with
  | none => exact objectKeysFrom_brace i inKey
  | some space =>
    obtain ⟨inKey', hspace⟩ := objectKeysFrom_blanks space.blank (i + 1) true none ('}' :: t)
    rw [List.cons_append, objectKeysFrom_comma, List.append_assoc, KeyScan.initial,
      List.singleton_append, hspace, objectKeysFrom_brace]
    exact List.append_nil _

/-- **The reader reports the keys of the items with their spans**, whatever follows the closing
brace. -/
theorem objectKeysFrom_joinItems (o : ObjectLayout) (items : List ObjectItem) (i : Nat)
    (t : List Char) :
    objectKeysFrom 0 i .initial (joinItems o.close items ++ t) = entriesFrom i items := by
  -- Induction along the items, with the last one by itself: no comma need follow it.
  induction items generalizing i with
  | nil => exact objectKeysFrom_close o i true none t
  | cons item items ih =>
    cases items with
    | nil =>
      obtain ⟨inKey, hread⟩ := objectKeysFrom_item item i (o.close ++ t)
      rw [joinItems, List.append_assoc, hread, objectKeysFrom_close, item.entry_waiting]
      rfl
    | cons next items =>
      obtain ⟨inKey, hread⟩ :=
        objectKeysFrom_item item i (',' :: (joinItems o.close (next :: items) ++ t))
      rw [joinItems, List.append_assoc, List.cons_append, hread, objectKeysFrom_comma,
        item.entry_waiting, ih]
      · rfl
      · exact List.cons_ne_nil next items

/-! ## What the spans hold -/

/-- The span of an entry holds what stands behind the colon of an item: it starts behind the colon
and ends in front of a comma or a closing brace. -/
structure SpansItem (text : List Char) (e : ObjectKey) (item : ObjectItem) : Prop where
  key : e.key = item.name
  colon : 0 < e.valueStart ∧ text[e.valueStart - 1]? = some ':'
  value : slice text e.valueStart e.valueEnd = item.text
  stop : text[e.valueEnd]? = some ',' ∨ text[e.valueEnd]? = some '}'

theorem spansItem_entry (item : ObjectItem) (before : List Char) {c : Char} (t : List Char)
    (hc : c = ',' ∨ c = '}') :
    SpansItem (before ++ (item.chars ++ c :: t)) (item.entry before.length) item := by
  let keyed := before ++ (item.indent.chars ++ (item.key.chars ++ item.gap.chars))
  have hcolon : before ++ (item.chars ++ c :: t) = keyed ++ ':' :: (item.text ++ c :: t) := by
    simp [keyed, ObjectItem.chars, ObjectItem.head]
  have hsplit : before ++ (item.chars ++ c :: t) =
      before ++ item.head ++ (item.text ++ c :: t) := by
    simp [ObjectItem.chars]
  have hstart : (item.entry before.length).valueStart = (before ++ item.head).length :=
    List.length_append.symm
  have hkeyed : (item.entry before.length).valueStart = keyed.length + 1 := by
    simp [hstart, keyed, ObjectItem.head, Nat.add_assoc]
  have hstop : (item.entry before.length).valueEnd =
      (before ++ item.head).length + item.text.length := by
    simp [ObjectItem.entry, ObjectItem.chars, Nat.add_assoc]
  refine ⟨rfl, ?_, ?_, ?_⟩
  · rw [hkeyed, hcolon]
    exact ⟨Nat.succ_pos _, by simp⟩
  · rw [hstart, hstop, hsplit, slice_append_append]
  · rw [hstop, hsplit, ← List.append_assoc, ← List.length_append,
      List.getElem?_append_right (Nat.le_refl _), Nat.sub_self]
    exact hc.imp (congrArg some) (congrArg some)

/-- What is written behind an item starts with a comma or a closing brace. -/
theorem exists_close (o : ObjectLayout) :
    ∃ c rest, o.close = c :: rest ∧ (c = ',' ∨ c = '}') := by
  unfold ObjectLayout.close
  cases o.trailing with
  | none => exact ⟨_, _, rfl, .inr rfl⟩
  | some space => exact ⟨_, _, rfl, .inl rfl⟩

theorem forall₂_spansItem (o : ObjectLayout) (items : List ObjectItem) (before t : List Char) :
    List.Forall₂ (SpansItem (before ++ (joinItems o.close items ++ t)))
      (entriesFrom before.length items) items := by
  induction items generalizing before with
  | nil => exact .nil
  | cons item items ih =>
    cases items with
    | nil =>
      obtain ⟨c, rest, hclose, hc⟩ := exists_close o
      rw [joinItems, hclose, List.append_assoc, List.cons_append]
      exact .cons (spansItem_entry item before _ hc) .nil
    | cons next items =>
      have hitems := ih (before ++ (item.chars ++ [',']))
      have hlength : (before ++ (item.chars ++ [','])).length =
          before.length + item.chars.length + 1 := by
        simp [Nat.add_assoc]
      rw [hlength, List.append_assoc, List.append_assoc, List.singleton_append] at hitems
      rw [joinItems, List.append_assoc, List.cons_append]
      · exact .cons (spansItem_entry item before _ (.inl rfl)) hitems
      · exact List.cons_ne_nil next items

/-- **An object literal is read as it is written.**  The keys of its own level are those of its
items in their order; the span of each holds the text between its colon and the comma or the closing
brace behind it; and nothing behind the closing brace matters, since the keys and spans are given by
the items and what stands in front of them. -/
theorem objectKeys_layout (o : ObjectLayout) (before after : List Char) :
    objectKeys (before ++ (o.chars ++ after)) before.length 0 =
        entriesFrom before.length o.items ∧
      List.Forall₂ (SpansItem (before ++ (o.chars ++ after)))
        (entriesFrom before.length o.items) o.items ∧
      topLevelKeys (before ++ (o.chars ++ after)) before.length =
        o.items.map ObjectItem.name := by
  have hkeys : objectKeys (before ++ (o.chars ++ after)) before.length 0 =
      entriesFrom before.length o.items := by
    rw [objectKeys, List.drop_left]
    exact objectKeysFrom_joinItems o o.items before.length after
  have hspans := forall₂_spansItem o o.items before after
  refine ⟨hkeys, hspans, ?_⟩
  rw [topLevelKeys, hkeys, key_entriesFrom]

end PlanAudit.Text
