import PlanAudit.Proofs.Prisma.Blocks
import PlanAudit.Proofs.Text.ObjectKeys

/-!
# Arguments of client calls

The argument of a client call is an object on one line: its members have names as keys, and digits
or further objects as values.  Two things about its text are used later.  The reader of object
literals reports the keys of an object and passes over what is nested in it; and behind any part of
a nested object more braces are open than in front of it.

## Main definitions

* `Value`, `Members`: values, and the members of an object, with the white space between them
* `Members.members`: the keys with their values
* `Compositional`: a property of texts that pieces hand on to what they make up
* `Nested`: a text that closes the braces that it opens, and none besides

## Main results

* `Compositional.members`: such a property holds of the members of every object
* `compositional_nested`: members close their braces
* `topLevelKeys_members`: the keys that are read are those that are written
-/

namespace PlanAudit.Prisma

open Text

/-! ## Objects as they are written -/

/-- Digits. -/
structure Digits where
  /-- The characters. -/
  chars : List Char
  /-- There are some. -/
  ne_nil : chars ≠ []
  /-- They are digits. -/
  digit : ∀ c ∈ chars, isDigitAscii c = true

/-- A key and what stands around it, up to the value. -/
structure KeyText where
  /-- What stands in front. -/
  indent : Spacing
  /-- The key. -/
  key : KeyName
  /-- What stands on both sides of the colon. -/
  gaps : Spacing × Spacing

/-- The characters in front of the value. -/
def KeyText.chars (k : KeyText) : List Char :=
  k.indent.chars ++ (k.key.chars ++ (k.gaps.1.chars ++ ':' :: k.gaps.2.chars))

mutual

/-- A value. -/
inductive Value where
  | digits (d : Digits)
  | object (o : Members)

/-- What stands between the braces of an object. -/
inductive Members where
  /-- No further member. -/
  | none (space : Spacing)
  /-- The last member, without a comma behind it. -/
  | last (key : KeyText) (value : Value) (space : Spacing)
  /-- A member with a comma behind it. -/
  | more (key : KeyText) (value : Value) (space : Spacing) (rest : Members)

end

mutual

/-- The characters of the value. -/
def Value.chars : Value → List Char
  | .digits d => d.chars
  | .object o => '{' :: (o.chars ++ ['}'])

/-- The characters between the braces. -/
def Members.chars : Members → List Char
  | .none space => space.chars
  | .last key value space => key.chars ++ (value.chars ++ space.chars)
  | .more key value space rest =>
    key.chars ++ (value.chars ++ (space.chars ++ ',' :: rest.chars))

end

/-- The keys with their values. -/
def Members.members : Members → List (KeyName × Value)
  | .none _ => []
  | .last k v _ => [(k.key, v)]
  | .more k v _ rest => (k.key, v) :: rest.members

/-- The names of the keys in their order. -/
def Members.names (o : Members) : List String := o.members.map fun p => p.1.string

/-! ## Pieces of the text -/

/-- A character that is neither a bracket nor the end of a line. -/
def isPlain (c : Char) : Bool := isKeyChar c || (isBlank c && c != '\n') || c == ':' || c == ','

section Pieces

variable {w : List Char}

theorem isPlain_of_mem_spacing (s : Spacing) : ∀ c ∈ s.chars, isPlain c = true := by
  intro c hc
  have hfeed : c ≠ '\n' := fun h => s.unbroken (h ▸ hc)
  simp [isPlain, s.blank c hc, hfeed]

theorem isPlain_of_mem_keyText (k : KeyText) : ∀ c ∈ k.chars, isPlain c = true := by
  intro c hc
  simp only [KeyText.chars, List.mem_append, List.mem_cons] at hc
  rcases hc with hc | hc | hc | rfl | hc
  · exact isPlain_of_mem_spacing _ c hc
  · simp [isPlain, k.key.isKey c hc]
  · exact isPlain_of_mem_spacing _ c hc
  · decide
  · exact isPlain_of_mem_spacing _ c hc

theorem isPlain_of_mem_digits (d : Digits) : ∀ c ∈ d.chars, isPlain c = true := by
  intro c hc
  have hword := isWord_of_isAlphanumericAscii (c := c) (by simp [isAlphanumericAscii, d.digit c hc])
  simp [isPlain, isKeyChar, hword]

/-- A property of pieces without brackets, of two pieces one after the other and of a piece between
braces. -/
structure Compositional (P : List Char → Prop) : Prop where
  plain : ∀ w, (∀ c ∈ w, isPlain c = true) → P w
  append : ∀ v w, P v → P w → P (v ++ w)
  wrap : ∀ w, P w → P ('{' :: (w ++ ['}']))

variable {P : List Char → Prop}

mutual

/-- **Such a property holds of every value.** -/
theorem Compositional.value (h : Compositional P) : ∀ v : Value, P v.chars
  | .digits d => h.plain _ (isPlain_of_mem_digits d)
  | .object o => h.wrap _ (h.members o)

/-- Such a property holds of the members of every object. -/
theorem Compositional.members (h : Compositional P) : ∀ o : Members, P o.chars
  | .none space => h.plain _ (isPlain_of_mem_spacing space)
  | .last key value space =>
    h.append _ _ (h.plain _ (isPlain_of_mem_keyText key))
      (h.append _ _ (h.value value) (h.plain _ (isPlain_of_mem_spacing space)))
  | .more key value space rest =>
    h.append _ _ (h.plain _ (isPlain_of_mem_keyText key))
      (h.append _ _ (h.value value) (h.append _ _ (h.plain _ (isPlain_of_mem_spacing space))
        (h.append [','] _ (h.plain _ (by decide)) (h.members rest))))

end

/-- The characters of an object are plain or braces. -/
theorem compositional_chars :
    Compositional fun w => ∀ c ∈ w, isPlain c = true ∨ c = '{' ∨ c = '}' where
  plain := fun w hw c hc => Or.inl (hw c hc)
  append := fun v w hv hw c hc => (List.mem_append.mp hc).elim (hv c) (hw c)
  wrap := fun w hw c hc => by
    rcases List.mem_cons.mp hc with rfl | hc
    · exact Or.inr (Or.inl rfl)
    · rcases List.mem_append.mp hc with hc | hc
      · exact hw c hc
      · exact Or.inr (Or.inr (List.mem_singleton.mp hc))

/-- A character that is neither plain nor a brace does not occur. -/
theorem Value.not_mem_chars {c : Char} (hc : isPlain c = false) (hbrace : c ≠ '{' ∧ c ≠ '}')
    (v : Value) : c ∉ v.chars := fun hmem => by
  rcases compositional_chars.value v c hmem with h | h | h
  · rw [h] at hc
    cases hc
  · exact hbrace.1 h
  · exact hbrace.2 h

theorem Members.not_mem_chars {c : Char} (hc : isPlain c = false) (hbrace : c ≠ '{' ∧ c ≠ '}')
    (o : Members) : c ∉ o.chars := fun hmem =>
  Value.not_mem_chars hc hbrace (.object o) (List.mem_cons_of_mem _ (List.mem_append_left _ hmem))

end Pieces

/-! ## Open brackets -/

theorem braceBalance_append (v w : List Char) :
    braceBalance (v ++ w) = braceBalance v + braceBalance w := by
  unfold braceBalance
  rw [List.count_append, List.count_append]
  omega

theorem braceBalance_opener (w : List Char) : braceBalance ('{' :: w) = braceBalance w + 1 := by
  have hopen : braceBalance ['{'] = 1 := rfl
  rw [← List.singleton_append, braceBalance_append, hopen, Int.add_comm]

theorem braceBalance_eq_zero {w : List Char} (h : '{' ∉ w ∧ '}' ∉ w) : braceBalance w = 0 := by
  rw [braceBalance, List.count_eq_zero.mpr h.1, List.count_eq_zero.mpr h.2]
  rfl

/-- A text that closes the braces that it opens, and up to no place more. -/
structure Nested (w : List Char) : Prop where
  /-- As many are closed as are opened. -/
  total : braceBalance w = 0
  /-- Up to each place at most as many. -/
  front : ∀ u s, w = u ++ s → 0 ≤ braceBalance u

theorem nested_of_not_mem {w : List Char} (h : '{' ∉ w ∧ '}' ∉ w) : Nested w where
  total := braceBalance_eq_zero h
  front := fun u s hsplit => by
    rw [hsplit, List.mem_append, List.mem_append, not_or, not_or] at h
    exact Int.le_of_eq (braceBalance_eq_zero ⟨h.1.1, h.2.1⟩).symm

theorem Nested.append {v w : List Char} (hv : Nested v) (hw : Nested w) : Nested (v ++ w) where
  total := by rw [braceBalance_append, hv.total, hw.total, Int.add_zero]
  front := by
    intro u s hsplit
    rcases List.append_eq_append_iff.mp hsplit with ⟨z, rfl, hz⟩ | ⟨z, hz, -⟩
    · rw [braceBalance_append, hv.total, Int.zero_add]
      exact hw.front z s hz
    · exact hv.front u z hz

/-- Between its braces an object has one open. -/
theorem Nested.inside {w u z : List Char} (hw : Nested w) (hsplit : '{' :: (w ++ ['}']) = u ++ z)
    (hu : u ≠ []) (hz : z ≠ []) : 0 < braceBalance u := by
  obtain ⟨x, u, rfl⟩ := List.exists_cons_of_ne_nil hu
  obtain rfl : '{' = x := (List.cons.inj hsplit).1
  have hrest : w ++ ['}'] = u ++ z := (List.cons.inj hsplit).2
  have hfront := hw.front u z.dropLast (by
    rw [← List.dropLast_append_of_ne_nil hz, ← hrest, List.dropLast_concat])
  rw [braceBalance_opener]
  omega

theorem Nested.wrap {w : List Char} (hw : Nested w) : Nested ('{' :: (w ++ ['}'])) := by
  have htotal : braceBalance ('{' :: (w ++ ['}'])) = 0 := by
    have hclose : braceBalance ['}'] = -1 := rfl
    rw [braceBalance_opener, braceBalance_append, hw.total, hclose]
    rfl
  refine ⟨htotal, fun u z hsplit => ?_⟩
  by_cases hu : u = []
  · rw [hu]
    exact Int.le_refl 0
  by_cases hz : z = []
  · rw [hz, List.append_nil] at hsplit
    exact Int.le_of_eq (hsplit ▸ htotal.symm)
  · exact Int.le_of_lt (hw.inside hsplit hu hz)

/-- Members close the braces that they open. -/
theorem compositional_nested : Compositional Nested where
  plain := fun w hw => nested_of_not_mem
    ⟨fun h => absurd (hw _ h) (by decide), fun h => absurd (hw _ h) (by decide)⟩
  append := fun _ _ => Nested.append
  wrap := fun _ => Nested.wrap

/-! ## Keys -/

/-- What holds no bracket leaves those that are open as they are. -/
theorem closesBrackets_append {level : Nat} {w : List Char} (hw : ∀ c ∈ w, isPlain c = true)
    (hcomma : level = 0 → ',' ∉ w) (r : List Char) :
    closesBrackets level (w ++ r) = closesBrackets level r := by
  induction w with
  | nil => rfl
  | cons c w ih =>
    obtain ⟨hc, hw⟩ := List.forall_mem_cons.mp hw
    obtain ⟨hopen, hclose⟩ := not_bracket_of_class (by decide) hc
    have hkept : (level != 0 || c != ',') = true := by
      by_cases hlevel : level = 0
      · have hne : c ≠ ',' := fun h => hcomma hlevel (by simp [h])
        simp [hne]
      · simp [hlevel]
    rw [List.cons_append, closesBrackets.eq_def]
    simp only [hopen, hclose, hkept, Bool.false_eq_true, if_false, Bool.true_and]
    exact ih hw fun hlevel hmem => hcomma hlevel (List.mem_cons_of_mem c hmem)

/-- Inside brackets, members leave these open. -/
theorem compositional_closes :
    Compositional fun w => ∀ level r, closesBrackets (level + 1) (w ++ r) =
      closesBrackets (level + 1) r where
  plain := fun _ hw level r => closesBrackets_append hw (absurd · (Nat.succ_ne_zero level)) r
  append := fun v w hv hw level r => by rw [List.append_assoc, hv, hw]
  wrap := fun w hw level r => by
    change closesBrackets (level + 2) (w ++ ['}'] ++ r) = _
    rw [List.append_assoc, hw]
    rfl

/-- A value closes its brackets, and no comma stands outside them. -/
theorem Value.closed (v : Value) : closesBrackets 0 v.chars = true := by
  cases v with
  | object o => exact compositional_closes.members o 0 ['}']
  | digits d =>
    have hcomma : ',' ∉ d.chars := fun h => absurd (d.digit _ h) (by decide)
    rw [Value.chars, ← List.append_nil d.chars,
      closesBrackets_append (isPlain_of_mem_digits d) fun _ => hcomma]
    rfl

/-- A member without the white space behind it, as the reader of keys takes it. -/
def KeyText.property (k : KeyText) (v : Value) : Property where
  indent := ⟨k.indent.chars, k.indent.blank⟩
  key := k.key
  gap := ⟨k.gaps.1.chars, k.gaps.1.blank⟩
  gap_unbroken := k.gaps.1.unbroken
  value := k.gaps.2.chars ++ v.chars
  value_closed := by
    have hcomma : ',' ∉ k.gaps.2.chars := fun h => absurd (k.gaps.2.blank _ h) (by decide)
    rw [closesBrackets_append (isPlain_of_mem_spacing _) fun _ => hcomma]
    exact v.closed
  value_unbroken := fun h => (List.mem_append.mp h).elim k.gaps.2.unbroken
    (v.not_mem_chars (by decide) (by decide))

theorem KeyText.chars_property (k : KeyText) (v : Value) :
    (k.property v).chars = k.chars ++ v.chars := by
  simp [property, Property.chars, KeyText.chars]

theorem keys_members (o : Members) (i : Nat) (t : List Char) :
    (objectKeysFrom 0 i .initial (o.chars ++ '}' :: t)).map ObjectKey.key = o.names := by
  have hwaiting (k : KeyText) (start : Nat) :
      waitingNames (some (k.key.chars.reverse, start)) = [k.key.string] := by
    simp [waitingNames, KeyName.string]
  -- Behind a value and white space stands either a comma or the brace that closes the object.
  have hmember (k : KeyText) (v : Value) (space : Spacing) (i : Nat) (r : List Char) :
      ∃ j start, objectKeysFrom 0 i .initial (k.chars ++ (v.chars ++ (space.chars ++ r))) =
        objectKeysFrom 0 j ⟨0, [], false, some (k.key.chars.reverse, start)⟩ r := by
    obtain ⟨start, j, hread⟩ := objectKeysFrom_property (k.property v) i (space.chars ++ r)
    rw [KeyText.chars_property, List.append_assoc] at hread
    refine ⟨j + space.chars.length, start, ?_⟩
    rw [hread]
    refine objectKeysFrom_append (fun c hc i => ?_) j
    rw [step_of_isBlank (space.blank c hc), if_neg (by rintro rfl; exact space.unbroken hc)]
  induction o using Members.members.induct generalizing i with
  | case1 space => exact keys_space space.blank i true none
  | case2 k v space =>
    obtain ⟨j, start, hread⟩ := hmember k v space i ('}' :: t)
    rw [Members.chars, List.append_assoc, List.append_assoc, hread]
    exact (keys_space (List.forall_mem_nil _) j false _).trans (hwaiting k start)
  | case3 k v space rest ih =>
    obtain ⟨j, start, hread⟩ := hmember k v space i (',' :: (rest.chars ++ '}' :: t))
    rw [Members.chars, List.append_assoc, List.append_assoc, List.append_assoc, List.cons_append,
      hread, keys_comma, hwaiting, ih]
    rfl

/-- **The keys that are read of an object are those that are written.** -/
theorem topLevelKeys_members (o : Members) {text t : List Char} {start : Nat}
    (h : text.drop start = o.chars ++ '}' :: t) : topLevelKeys text start = o.names := by
  rw [topLevelKeys, objectKeys, h]
  exact keys_members o start t

end PlanAudit.Prisma
