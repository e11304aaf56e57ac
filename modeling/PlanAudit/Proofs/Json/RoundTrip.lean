import Mathlib.Data.Nat.Digits.Defs
import PlanAudit.Json.Reader
import PlanAudit.Json.Writer

/-!
# What is written on one line is read back

A value that is written on one line is read back as it is, provided that its numbers are whole and
not too long and that it is not nested too deep.  Strings are read back whatever they hold.

## Main definitions

* `Recordable`: a value that can be read back from a record

## Main results

* `readString_compact`: strings are read back
* `readNumber_integer`: whole numbers are read back
* `readValue_compact`, `parse_compact`: recordable values are read back
-/

namespace PlanAudit.Json

open PlanAudit.Text

variable {d : Dialect} {rest : List Char}

/-! ## Strings -/

theorem hexValue?_hexDigit : ∀ n < 16, hexValue? (hexDigit n) = some n := by decide

theorem readCode?_hexDigits {n : Nat} (h : n < 0x10000) :
    readCode? (hexDigits 4 n ++ rest) = some (n, rest) := by
  have hdigit : ∀ m, hexValue? (hexDigit (m % 16)) = some (m % 16) := fun m =>
    hexValue?_hexDigit (m % 16) (Nat.mod_lt m (by decide))
  simp only [hexDigits, List.nil_append, List.cons_append, readCode?, hdigit, Option.bind_eq_bind,
    Option.bind_some, Option.some.injEq, Prod.mk.injEq, and_true]
  omega

theorem simpleEscape?_of_shortEscape? {c e : Char} (h : shortEscape? c = some e) :
    simpleEscape? e = some c ∧ e ≠ 'u' := by
  unfold shortEscape? at h
  split at h <;> first
    | (obtain rfl := Option.some.inj h; decide)
    | cases h

theorem readEscapedCode_hexDigits {n : Nat} (h : n < 32) :
    readEscapedCode d (hexDigits 4 n ++ rest) = .ok (Char.ofNat n, rest) := by
  have hhigh : isHighHalf n = false := by
    simp only [isHighHalf, Bool.and_eq_false_iff, decide_eq_false_iff_not]
    omega
  have hlow : isLowHalf n = false := by
    simp only [isLowHalf, Bool.and_eq_false_iff, decide_eq_false_iff_not]
    omega
  simp [readEscapedCode, readCode?_hexDigits (Nat.lt_trans h (by decide)), hhigh, hlow]

theorem readString_compactChar (fuel : Nat) (c : Char) :
    readString d (fuel + 1) (compactChar c ++ rest) =
      (readString d fuel rest).map fun (cs, rest') => (c :: cs, rest') := by
  -- A short escape, a code, or the character as it is.
  unfold compactChar
  split
  · rename_i e he
    obtain ⟨hread, hu⟩ := simpleEscape?_of_shortEscape? he
    simp only [List.cons_append, List.nil_append]
    rw [readString.eq_5 _ _ _ _ (by rintro rfl; exact hu rfl), hread]
  · rename_i hshort
    have hquote : c ≠ '"' := by
      rintro rfl
      cases hshort
    have hbackslash : c ≠ '\\' := by
      rintro rfl
      cases hshort
    split
    · rename_i hcontrol
      simp only [codeEscape, List.cons_append]
      rw [readString.eq_4, readEscapedCode_hexDigits hcontrol, Char.ofNat_toNat]
      rfl
    · rename_i hplain
      simp only [List.cons_append, List.nil_append]
      rw [readString.eq_6 _ _ _ _ hquote (fun _ h => absurd h hbackslash)
        (fun _ _ h => absurd h hbackslash), if_neg (by simp [hbackslash, hplain])]

/-- **Strings are read back.** -/
theorem readString_compact {fuel : Nat} {cs : List Char} (h : cs.length < fuel) :
    readString d fuel (cs.flatMap compactChar ++ '"' :: rest) = .ok (cs, rest) := by
  induction cs generalizing fuel with
  | nil =>
    obtain ⟨fuel, rfl⟩ := Nat.exists_eq_succ_of_ne_zero (Nat.ne_of_gt h)
    rfl
  | cons c cs ih =>
    obtain ⟨fuel, rfl⟩ := Nat.exists_eq_succ_of_ne_zero (Nat.ne_zero_of_lt h)
    rw [List.flatMap_cons, List.append_assoc, readString_compactChar,
      ih (Nat.lt_of_succ_lt_succ h)]
    rfl

theorem length_le_flatMap_compactChar (cs : List Char) :
    cs.length ≤ (cs.flatMap compactChar).length := by
  induction cs with
  | nil => exact Nat.le_refl 0
  | cons c cs ih =>
    have hpos : 0 < (compactChar c).length := by
      unfold compactChar
      split
      · exact Nat.succ_pos _
      · split <;> exact Nat.succ_pos _
    rw [List.flatMap_cons, List.length_append, List.length_cons]
    omega

/-! ## Whole numbers -/

/-- Nothing follows a value, or a mark that ends it. -/
def AfterValue (rest : List Char) : Prop :=
  ∀ c ∈ rest.head?, c = ',' ∨ c = ']' ∨ c = '}'

theorem afterValue_cons {c : Char} (h : c = ',' ∨ c = ']' ∨ c = '}') (rest : List Char) :
    AfterValue (c :: rest) := by
  intro x hx
  rwa [← Option.some.inj hx]

theorem isDigitAscii_of_mem_toDigits {m : Nat} {c : Char} (h : c ∈ Nat.toDigits 10 m) :
    isDigitAscii c = true := by
  have hdigit := Nat.isDigit_of_mem_toDigits (by decide) (by decide) h
  simp only [Char.isDigit, Bool.and_eq_true, decide_eq_true_eq] at hdigit
  simp only [isDigitAscii, Bool.and_eq_true, decide_eq_true_eq]
  exact hdigit

theorem toDigits_append_ne {m : Nat} (h : 0 < m) (rest after : List Char) :
    Nat.toDigits 10 m ++ rest ≠ '0' :: after := by
  -- The induction takes away the last digit; the first is that of a number below ten.
  induction m using Nat.strongRecOn generalizing rest with
  | ind m ih =>
    rw [Nat.toDigits_eq_if (by decide)]
    split
    · rename_i hlt
      have hone : ∀ k < 10, 0 < k → k.digitChar ≠ '0' := by decide
      exact fun heq => hone m hlt h (List.cons.inj heq).1
    · rename_i hge
      rw [List.append_assoc]
      exact ih (m / 10) (by omega) (by omega) _

theorem spanDigits_toDigits {m : Nat} (hrest : AfterValue rest) :
    spanDigits (Nat.toDigits 10 m ++ rest) = (Nat.toDigits 10 m, rest) := by
  have hall : ∀ c ∈ Nat.toDigits 10 m, isDigitAscii c = true := fun c =>
    isDigitAscii_of_mem_toDigits
  have hend : rest.takeWhile isDigitAscii = [] ∧ rest.dropWhile isDigitAscii = rest := by
    cases rest with
    | nil => exact ⟨rfl, rfl⟩
    | cons c rest =>
      rcases hrest c rfl with rfl | rfl | rfl <;> exact ⟨rfl, rfl⟩
  rw [spanDigits, List.takeWhile_append_of_pos hall, List.dropWhile_append_of_pos hall, hend.1,
    hend.2, List.append_nil]

theorem integralPart?_toDigits {m : Nat} (hrest : AfterValue rest) :
    integralPart? (Nat.toDigits 10 m ++ rest) = some (Nat.toDigits 10 m, rest) := by
  obtain rfl | hpos := Nat.eq_zero_or_pos m
  · rfl
  · -- A zero in front would be the whole number.
    unfold integralPart?
    split
    · rename_i heq
      exact absurd heq (toDigits_append_ne hpos _ _)
    · rw [spanDigits_toDigits hrest]
      split
      · rename_i heq
        exact absurd (congrArg Prod.fst heq) Nat.toDigits_ne_nil
      · rename_i heq
        rw [← heq]

theorem fractionPart_of_afterValue (hrest : AfterValue rest) : fractionPart rest = ([], rest) := by
  cases rest with
  | nil => rfl
  | cons c rest => rcases hrest c rfl with rfl | rfl | rfl <;> rfl

theorem exponentPart_of_afterValue (hrest : AfterValue rest) :
    exponentPart rest = (none, rest) := by
  cases rest with
  | nil => rfl
  | cons c rest => rcases hrest c rfl with rfl | rfl | rfl <;> rfl

theorem ofDigits_toDigits (m : Nat) : ofDigits (Nat.toDigits 10 m) = m := by
  have h := Nat.ofDigitChars_toDigits (b := 10) (n := m) (by decide) (by decide)
  rwa [Nat.ofDigitChars_eq_foldl] at h

theorem readMagnitude_toDigits {negative : Bool} {m : Nat} (hm : m < 10 ^ maxDigits)
    (hrest : AfterValue rest) :
    readMagnitude d negative (Nat.toDigits 10 m ++ rest) =
      .ok (.integer (if negative then -(m : Int) else m), rest) := by
  have hlength : ¬ maxDigits < (Nat.toDigits 10 m).length :=
    Nat.not_lt.mpr ((Nat.length_toDigits_le_iff (by decide) (by decide)).mpr hm)
  simp [readMagnitude, integralPart?_toDigits hrest, fractionPart_of_afterValue hrest,
    exponentPart_of_afterValue hrest, Dialect.digitFault?, hlength, ofDigits_toDigits]

theorem toList_toString_ofNat (m : Nat) :
    (toString (Int.ofNat m)).toList = Nat.toDigits 10 m :=
  Nat.toList_repr

theorem toList_toString_negSucc (m : Nat) :
    (toString (Int.negSucc m)).toList = '-' :: Nat.toDigits 10 (m + 1) := by
  change ("-" ++ (m + 1).repr).toList = _
  rw [String.toList_append, Nat.toList_repr]
  rfl

theorem toDigits_append_ne_minus (m : Nat) (rest after : List Char) :
    Nat.toDigits 10 m ++ rest ≠ '-' :: after := by
  intro heq
  obtain ⟨c, digits, hdigits⟩ :=
    List.exists_cons_of_ne_nil (Nat.toDigits_ne_nil (b := 10) (n := m))
  have hc := isDigitAscii_of_mem_toDigits (m := m) (hdigits ▸ List.mem_cons_self)
  rw [hdigits] at heq
  rw [(List.cons.inj heq).1] at hc
  cases hc

/-- **Whole numbers are read back** unless they are too long. -/
theorem readNumber_integer {n : Int} (hn : n.natAbs < 10 ^ maxDigits) (hrest : AfterValue rest) :
    readNumber d ((toString n).toList ++ rest) = .ok (number (.integer n), rest) := by
  cases n with
  | ofNat m =>
    rw [toList_toString_ofNat,
      readNumber.eq_2 _ _ fun after => toDigits_append_ne_minus m rest after,
      readMagnitude_toDigits (m := m) hn hrest]
    rfl
  | negSucc m =>
    rw [toList_toString_negSucc, List.cons_append, readNumber.eq_1,
      readMagnitude_toDigits (m := m + 1) hn hrest]
    rfl

/-! ## Values -/

mutual

/-- The value can be read back from a record when it lies in `depth` arrays and objects. -/
def Recordable (depth : Nat) : Json → Prop
  | .number (.integer n) => n.natAbs < 10 ^ maxDigits
  | .number _ => False
  | .array items => items ≠ [] → depth + 1 ≤ maxDepth ∧ RecordableItems (depth + 1) items
  | .object members => members ≠ [] → depth + 1 ≤ maxDepth ∧ RecordableMembers (depth + 1) members
  | _ => True

def RecordableItems (depth : Nat) : List Json → Prop
  | [] => True
  | item :: rest => Recordable depth item ∧ RecordableItems depth rest

def RecordableMembers (depth : Nat) : List (String × Json) → Prop
  | [] => True
  | (_, value) :: rest => Recordable depth value ∧ RecordableMembers depth rest

end

theorem recordableItems_iff {depth : Nat} {items : List Json} :
    RecordableItems depth items ↔ ∀ item ∈ items, Recordable depth item := by
  induction items with
  | nil => exact iff_of_true trivial fun _ h => absurd h List.not_mem_nil
  | cons item items ih => rw [RecordableItems, ih, List.forall_mem_cons]

theorem recordableMembers_iff {depth : Nat} {members : List (String × Json)} :
    RecordableMembers depth members ↔ ∀ m ∈ members, Recordable depth m.2 := by
  induction members with
  | nil => exact iff_of_true trivial fun _ h => absurd h List.not_mem_nil
  | cons m members ih => rw [RecordableMembers, ih, List.forall_mem_cons]

/-- The items of an array as they are written between its brackets. -/
def itemsText (items : List Json) : List Char := (",".intercalate (compactItems items)).toList

/-- The members of an object as they are written between its braces. -/
def membersText (members : List (String × Json)) : List Char :=
  (",".intercalate (compactMembers members)).toList

theorem itemsText_singleton (item : Json) : itemsText [item] = (compact item).toList := by
  simp [itemsText, compactItems]

theorem itemsText_cons (item next : Json) (items : List Json) :
    itemsText (item :: next :: items) =
      (compact item).toList ++ ',' :: itemsText (next :: items) := by
  simp [itemsText, compactItems]

theorem toList_quotedBy (write : Char → List Char) (s : String) :
    (quotedBy write s).toList = '"' :: s.toList.flatMap write ++ ['"'] := by
  rw [quotedBy, String.toList_ofList]

theorem membersText_singleton (name : String) (value : Json) :
    membersText [(name, value)] =
      '"' :: (name.toList.flatMap compactChar ++ '"' :: ':' :: (compact value).toList) := by
  simp [membersText, compactMembers, toList_quotedBy]

theorem membersText_cons (name : String) (value : Json) (next : String × Json)
    (members : List (String × Json)) :
    membersText ((name, value) :: next :: members) =
      '"' :: (name.toList.flatMap compactChar ++ '"' :: ':' ::
        ((compact value).toList ++ ',' :: membersText (next :: members))) := by
  simp [membersText, compactMembers, toList_quotedBy]

theorem toList_compact_array (items : List Json) :
    (compact (.array items)).toList = '[' :: itemsText items ++ [']'] := by
  simp [compact, itemsText]

theorem toList_compact_object (members : List (String × Json)) :
    (compact (.object members)).toList = '{' :: membersText members ++ ['}'] := by
  simp [compact, membersText]

/-! ## Reading values back -/

theorem ne_of_isDigitAscii {c x : Char} (hc : isDigitAscii c = true) (hx : isDigitAscii x = false) :
    c ≠ x := by
  rintro rfl
  rw [hc] at hx
  cases hx

theorem readValue_digit {c : Char} (hc : isDigitAscii c = true) (fuel depth : Nat)
    (after : List Char) :
    readValue d (fuel + 1) depth (c :: after) = readNumber d (c :: after) ∧
      readValue d (fuel + 1) depth ('-' :: c :: after) = readNumber d ('-' :: c :: after) := by
  -- No string, array, object or word begins with a digit, and none with a minus sign before one.
  have hne : ∀ x, isDigitAscii x = false → x ≠ c := fun x hx => (ne_of_isDigitAscii hc hx).symm
  have hword : readWord? (c :: after) = none ∧ readWord? ('-' :: c :: after) = none := by
    simp (disch := decide) [readWord?, words, beginsWith, hne]
  constructor
  · rw [readValue.eq_5, hword.1]
    all_goals
      intro rest heq
      exact ne_of_isDigitAscii hc (by decide) (List.cons.inj heq).1
  · rw [readValue.eq_5, hword.2]
    all_goals
      intro rest heq
      exact absurd (List.cons.inj heq).1 (by decide)

theorem exists_digit_of_integer (n : Int) : ∃ c after, isDigitAscii c = true ∧
    ((toString n).toList = c :: after ∨ (toString n).toList = '-' :: c :: after) := by
  have hdigits : ∀ m, ∃ c after, isDigitAscii c = true ∧ Nat.toDigits 10 m = c :: after := by
    intro m
    obtain ⟨c, after, hm⟩ := List.exists_cons_of_ne_nil (Nat.toDigits_ne_nil (b := 10) (n := m))
    exact ⟨c, after, isDigitAscii_of_mem_toDigits (m := m) (hm ▸ List.mem_cons_self), hm⟩
  cases n with
  | ofNat m =>
    obtain ⟨c, after, hc, hm⟩ := hdigits m
    exact ⟨c, after, hc, .inl (hm ▸ toList_toString_ofNat m)⟩
  | negSucc m =>
    obtain ⟨c, after, hc, hm⟩ := hdigits (m + 1)
    exact ⟨c, after, hc, .inr (hm ▸ toList_toString_negSucc m)⟩

theorem readValue_number {fuel depth : Nat} {n : Int} (hn : n.natAbs < 10 ^ maxDigits)
    (hrest : AfterValue rest) :
    readValue d (fuel + 1) depth ((toString n).toList ++ rest) =
      .ok (number (.integer n), rest) := by
  rw [← readNumber_integer hn hrest]
  obtain ⟨c, after, hc, htext | htext⟩ := exists_digit_of_integer n
  · rw [htext]
    exact (readValue_digit hc fuel depth (after ++ rest)).1
  · rw [htext]
    exact (readValue_digit hc fuel depth (after ++ rest)).2

theorem skipSpace_cons {c : Char} (hc : isSpace c = false) (after : List Char) :
    skipSpace (c :: after) = c :: after := by
  rw [skipSpace, List.dropWhile_cons, hc, if_neg Bool.false_ne_true]

/-- A value that can be read back begins neither with white space nor with a closing bracket. -/
theorem exists_compact_eq_cons {j : Json} {depth : Nat} (h : Recordable depth j) :
    ∃ c after, (compact j).toList = c :: after ∧ isSpace c = false ∧ c ≠ ']' := by
  cases j with
  | null => exact ⟨'n', _, rfl, rfl, by decide⟩
  | bool b =>
    cases b with
    | false => exact ⟨'f', _, rfl, rfl, by decide⟩
    | true => exact ⟨'t', _, rfl, rfl, by decide⟩
  | number n =>
    cases n with
    | integer n =>
      obtain ⟨c, after, hc, htext | htext⟩ := exists_digit_of_integer n
      · refine ⟨c, after, htext, ?_, ne_of_isDigitAscii hc (by decide)⟩
        simp (disch := decide) [isSpace, ne_of_isDigitAscii hc]
      · exact ⟨'-', _, htext, rfl, by decide⟩
    | decimal | notANumber | infinite => exact absurd h id
  | string s => exact ⟨'"', _, toList_quotedBy compactChar s, rfl, by decide⟩
  | array items => exact ⟨'[', _, toList_compact_array items, rfl, by decide⟩
  | object members => exact ⟨'{', _, toList_compact_object members, rfl, by decide⟩

theorem skipSpace_compact {j : Json} {depth : Nat} (h : Recordable depth j) :
    skipSpace ((compact j).toList ++ rest) = (compact j).toList ++ rest := by
  obtain ⟨c, after, htext, hspace, -⟩ := exists_compact_eq_cons h
  rw [htext, List.cons_append, skipSpace_cons hspace]

theorem exists_itemsText_eq_cons {item : Json} {items : List Json} {depth : Nat}
    (h : Recordable depth item) :
    ∃ c after, itemsText (item :: items) = c :: after ∧ isSpace c = false ∧ c ≠ ']' := by
  obtain ⟨c, after, htext, hspace, hbracket⟩ := exists_compact_eq_cons h
  cases items with
  | nil => exact ⟨c, after, by rw [itemsText_singleton, htext], hspace, hbracket⟩
  | cons next items =>
    exact ⟨c, _, by rw [itemsText_cons, htext, List.cons_append], hspace, hbracket⟩

theorem exists_membersText_eq_cons (m : String × Json) (members : List (String × Json)) :
    ∃ after, membersText (m :: members) = '"' :: after := by
  cases members with
  | nil => exact ⟨_, membersText_singleton m.1 m.2⟩
  | cons next members => exact ⟨_, membersText_cons m.1 m.2 next members⟩

/-- What follows an item decides whether it is the last. -/
theorem readItems_item {fuel depth : Nat} {item : Json} {text after : List Char}
    (hitem : readValue d fuel depth text = .ok (item, after)) :
    readItems d (fuel + 1) depth text =
      match skipSpace after with
      | ']' :: rest => .ok ([item], rest)
      | ',' :: rest =>
        (readItems d fuel depth (skipSpace rest)).map fun (items, rest') => (item :: items, rest')
      | _ => .error .malformed := by
  rw [readItems, hitem]
  rfl

/-- What follows a member decides whether it is the last. -/
theorem readMembers_member {fuel depth : Nat} {name : String} {value : Json}
    {text after : List Char} (hname : name.toList.length < fuel) (hspace : skipSpace text = text)
    (hvalue : readValue d fuel depth text = .ok (value, after)) :
    readMembers d (fuel + 1) depth
        ('"' :: (name.toList.flatMap compactChar ++ '"' :: ':' :: text)) =
      match skipSpace after with
      | '}' :: rest => .ok ([(name, value)], rest)
      | ',' :: rest =>
        (readMembers d fuel depth (skipSpace rest)).map fun (ms, rest') =>
          ((name, value) :: ms, rest')
      | _ => .error .malformed := by
  rw [readMembers.eq_2, readString_compact hname]
  simp only [bind, Except.bind, skipSpace_cons (c := ':') rfl, hspace, hvalue, String.ofList_toList]
  rfl

theorem skipSpace_itemsText {item : Json} {items : List Json} {depth : Nat}
    (h : Recordable depth item) :
    skipSpace (itemsText (item :: items) ++ rest) = itemsText (item :: items) ++ rest := by
  obtain ⟨c, after, htext, hspace, -⟩ := exists_itemsText_eq_cons h
  rw [htext, List.cons_append, skipSpace_cons hspace]

theorem skipSpace_membersText (m : String × Json) (members : List (String × Json)) :
    skipSpace (membersText (m :: members) ++ rest) = membersText (m :: members) ++ rest := by
  obtain ⟨after, htext⟩ := exists_membersText_eq_cons m members
  rw [htext, List.cons_append, skipSpace_cons rfl]

mutual

/-- **A value is read back** from the text that is written for it, whatever follows. -/
theorem readValue_compact (j : Json) {fuel depth : Nat} {rest : List Char}
    (h : Recordable depth j) (hfuel : (compact j).toList.length ≤ fuel)
    (hrest : AfterValue rest) :
    readValue .strict fuel depth ((compact j).toList ++ rest) = .ok (j, rest) := by
  -- What is written is not empty, so that there is a first step.
  obtain ⟨c, after, htext, -, -⟩ := exists_compact_eq_cons h
  obtain ⟨fuel, rfl⟩ : ∃ n, fuel = n + 1 :=
    Nat.exists_eq_succ_of_ne_zero fun hzero => by simp [hzero, htext] at hfuel
  cases j with
  | null => rfl
  | bool b => cases b <;> rfl
  | number n =>
    cases n with
    | integer n => exact readValue_number h hrest
    | decimal | notANumber | infinite => exact absurd h id
  | string s =>
    have hlength := length_le_flatMap_compactChar s.toList
    rw [show (compact (.string s)).toList = _ from toList_quotedBy compactChar s] at hfuel ⊢
    simp only [List.length_append, List.length_cons, List.length_nil] at hfuel
    rw [List.cons_append, List.cons_append, List.append_assoc, List.singleton_append,
      readValue.eq_2, readString_compact (by omega)]
    simp [Except.map]
  | array items =>
    rw [toList_compact_array] at hfuel ⊢
    cases items with
    | nil => rfl
    | cons item items =>
      obtain ⟨hdepth, hitems⟩ := h (List.cons_ne_nil item items)
      obtain ⟨c, after, hitemsText, hspace, hbracket⟩ := exists_itemsText_eq_cons hitems.1
      simp only [List.length_append, List.length_cons, List.length_nil] at hfuel
      have hread := readItems_compact (item :: items) rest (List.cons_ne_nil item items)
        hitems (Nat.lt_of_succ_le (by omega : (itemsText (item :: items)).length + 1 ≤ fuel))
      rw [hitemsText, List.cons_append] at hread
      rw [List.append_assoc, List.singleton_append, List.cons_append, hitemsText, List.cons_append,
        readValue.eq_3, skipSpace_cons hspace]
      -- The first item does not begin with the bracket that ends the array.
      split
      · rename_i heq
        exact absurd (List.cons.inj heq).1 hbracket
      · rw [Dialect.allowsDepth, if_pos (decide_eq_true hdepth), hread]
        rfl
  | object members =>
    rw [toList_compact_object] at hfuel ⊢
    cases members with
    | nil => rfl
    | cons m members =>
      obtain ⟨hdepth, hmembers⟩ := h (List.cons_ne_nil m members)
      obtain ⟨after, hmembersText⟩ := exists_membersText_eq_cons m members
      simp only [List.length_append, List.length_cons, List.length_nil] at hfuel
      have hread := readMembers_compact (m :: members) rest (List.cons_ne_nil m members)
        hmembers (Nat.lt_of_succ_le (by omega : (membersText (m :: members)).length + 1 ≤ fuel))
      rw [hmembersText, List.cons_append] at hread
      rw [List.append_assoc, List.singleton_append, List.cons_append, hmembersText,
        List.cons_append, readValue.eq_4, skipSpace_cons rfl]
      -- The first name begins with a quotation mark, and not with the brace.
      split
      · rename_i heq
        exact absurd (List.cons.inj heq).1 (by decide)
      · rw [Dialect.allowsDepth, if_pos (decide_eq_true hdepth), hread]
        rfl

theorem readItems_compact (items : List Json) (rest : List Char) {fuel depth : Nat}
    (hne : items ≠ []) (h : RecordableItems depth items) (hfuel : (itemsText items).length < fuel) :
    readItems .strict fuel depth (itemsText items ++ ']' :: rest) = .ok (items, rest) := by
  obtain ⟨fuel, rfl⟩ : ∃ n, fuel = n + 1 :=
    Nat.exists_eq_succ_of_ne_zero (Nat.ne_zero_of_lt hfuel)
  match items with
  | [] => exact absurd rfl hne
  | [item] =>
    rw [itemsText_singleton] at hfuel ⊢
    have hitem := readValue_compact item h.1 (Nat.le_of_lt_succ hfuel)
      (afterValue_cons (.inr (.inl rfl)) rest)
    rw [readItems_item hitem]
    rfl
  | item :: next :: items =>
    rw [itemsText_cons] at hfuel ⊢
    simp only [List.length_append, List.length_cons] at hfuel
    have hitem := readValue_compact item h.1 (by omega : (compact item).toList.length ≤ fuel)
      (afterValue_cons (.inl rfl) (itemsText (next :: items) ++ ']' :: rest))
    have hitems := readItems_compact (next :: items) rest (List.cons_ne_nil next items) h.2
      (by omega : (itemsText (next :: items)).length < fuel)
    rw [List.append_assoc, List.cons_append, readItems_item hitem, skipSpace_cons (c := ',') rfl]
    simp only [skipSpace_itemsText h.2.1, hitems, Except.map]

theorem readMembers_compact (members : List (String × Json)) (rest : List Char) {fuel depth : Nat}
    (hne : members ≠ []) (h : RecordableMembers depth members)
    (hfuel : (membersText members).length < fuel) :
    readMembers .strict fuel depth (membersText members ++ '}' :: rest) = .ok (members, rest) := by
  obtain ⟨fuel, rfl⟩ : ∃ n, fuel = n + 1 :=
    Nat.exists_eq_succ_of_ne_zero (Nat.ne_zero_of_lt hfuel)
  cases members with
  | nil => exact absurd rfl hne
  | cons m members =>
    obtain ⟨name, value⟩ := m
    have hlength := length_le_flatMap_compactChar name.toList
    cases members with
    | nil =>
      rw [membersText_singleton] at hfuel ⊢
      simp only [List.length_append, List.length_cons] at hfuel
      have hvalue := readValue_compact value h.1 (by omega : (compact value).toList.length ≤ fuel)
        (afterValue_cons (.inr (.inr rfl)) rest)
      rw [List.cons_append, List.append_assoc, List.cons_append, List.cons_append,
        readMembers_member (by omega) (skipSpace_compact h.1) hvalue]
      rfl
    | cons next members =>
      rw [membersText_cons] at hfuel ⊢
      simp only [List.length_append, List.length_cons] at hfuel
      have hvalue := readValue_compact value h.1 (by omega : (compact value).toList.length ≤ fuel)
        (afterValue_cons (.inl rfl) (membersText (next :: members) ++ '}' :: rest))
      have hmembers := readMembers_compact (next :: members) rest
        (List.cons_ne_nil next members) h.2
        (by omega : (membersText (next :: members)).length < fuel)
      rw [List.cons_append, List.append_assoc, List.cons_append, List.cons_append,
        List.append_assoc, List.cons_append,
        readMembers_member (by omega) (skipSpace_compact h.1) hvalue, skipSpace_cons (c := ',') rfl]
      simp only [skipSpace_membersText, hmembers, Except.map]

end

/-- **A record is read back.** -/
theorem parse_compact {j : Json} (h : Recordable 0 j) :
    parse .strict (compact j).toList = .ok j := by
  have hread : readValue .strict (2 * (compact j).toList.length + 1) 0 ((compact j).toList ++ []) =
      .ok (j, []) := readValue_compact j h (by omega) fun _ hc => absurd hc (by simp)
  have hspace : skipSpace ((compact j).toList ++ []) = (compact j).toList ++ [] :=
    skipSpace_compact h
  rw [List.append_nil] at hread hspace
  rw [parse, hspace, hread]
  rfl

end PlanAudit.Json
