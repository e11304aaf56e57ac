import PlanAudit.Proofs.Json.Scanning
import PlanAudit.Proofs.Text.Lines

/-!
# Where a record may be cut

A record is written on one line, but characters that end lines may stand in its strings as they
are.  A reader of lines then gets pieces of the record.  No piece is an object with proper names:
the first ends in a string, and the others begin in one, so that what they take for names is what
stands between the strings of the record.

## Main definitions

* `Framed`: line ends stand in strings only, and a mark stands behind every string
* `wideBreaks`, `Narrow`: the line ends that are written as they are, and strings without them
* `strings`: the strings in a value

## Main results

* `framed_compact`: records are framed
* `head?_of_parse_piece`: no piece of a record is an object with proper names
* `unbroken_compact_iff`: a record is one line if no string in it holds a wide line end
-/

namespace PlanAudit.Json

open PlanAudit.Text

/-! ## Records are framed -/

/-- Nothing follows a string, or a mark that may stand behind one. -/
def AfterString (rest : List Char) : Prop :=
  ∀ c ∈ rest.head?, c = ':' ∨ c = ',' ∨ c = ']' ∨ c = '}'

theorem AfterValue.afterString {rest : List Char} (h : AfterValue rest) : AfterString rest :=
  fun c hc => .inr (h c hc)

/-- Characters that end lines stand in strings only, a mark stands behind every string, and the text
ends outside of strings. -/
def Framed : Quoting → List Char → Prop
  | q, [] => q = .outside
  | q, c :: rest =>
    (isLineBreak c = true → q = .inside) ∧ (c = '"' → q = .inside → AfterString rest) ∧
      Framed (q.step c) rest

theorem Framed.of_append {q : Quoting} {first rest : List Char} (h : Framed q (first ++ rest)) :
    Framed (scan q first) rest := by
  induction first generalizing q with
  | nil => exact h
  | cons c first ih => exact ih h.2.2

theorem not_framed_astray (text : List Char) : ¬ Framed .astray text := by
  induction text with
  | nil => exact Quoting.noConfusion
  | cons c text ih => exact fun h => ih h.2.2

/-! ### Characters -/

theorem isLineBreak_eq_true_iff {c : Char} : isLineBreak c = true ↔
    (10 ≤ c.toNat ∧ c.toNat ≤ 13) ∨ (28 ≤ c.toNat ∧ c.toNat ≤ 30) ∨ c.toNat = 0x85 ∨
      c.toNat = 0x2028 ∨ c.toNat = 0x2029 := by
  have hle : ∀ a b : Char, a ≤ b ↔ a.toNat ≤ b.toNat := fun _ _ => Iff.rfl
  simp only [isLineBreak, Bool.or_eq_true, Bool.and_eq_true, decide_eq_true_eq, beq_iff_eq, hle,
    ← Char.toNat_inj, or_assoc]
  rfl

theorem isLineBreak_of_isDigitAscii {c : Char} (h : isDigitAscii c = true) :
    isLineBreak c = false := by
  have hle : ∀ a b : Char, a ≤ b ↔ a.toNat ≤ b.toNat := fun _ _ => Iff.rfl
  simp only [isDigitAscii, Bool.and_eq_true, decide_eq_true_eq, hle] at h
  have hzero : '0'.toNat = 48 := rfl
  have hnine : '9'.toNat = 57 := rfl
  -- The digits stand apart from all characters that end lines.
  rw [← Bool.not_eq_true, isLineBreak_eq_true_iff]
  omega

/-- A character that has no meaning to a reader: it is plain and does not end a line. -/
def isIdle (c : Char) : Bool := isPlain c && !isLineBreak c

theorem framed_idle {text rest : List Char} (h : ∀ c ∈ text, isIdle c = true) {q : Quoting}
    (hq : q = .outside ∨ q = .inside) (hrest : Framed q rest) : Framed q (text ++ rest) := by
  induction text with
  | nil => exact hrest
  | cons c text ih =>
    have hc := h c List.mem_cons_self
    simp only [isIdle, Bool.and_eq_true, Bool.not_eq_true'] at hc
    have hquote : c ≠ '"' := by
      rintro rfl
      cases hc.1
    refine ⟨fun hbreak => ?_, fun h => absurd h hquote, ?_⟩
    · rw [hc.2] at hbreak
      cases hbreak
    · rw [step_of_isPlain hc.1 hq]
      exact ih fun x hx => h x (List.mem_cons_of_mem c hx)

theorem framed_mark {c : Char} (hc : isIdle c = true) {rest : List Char}
    (hrest : Framed .outside rest) : Framed .outside (c :: rest) :=
  framed_idle (fun _ hx => List.mem_singleton.mp hx ▸ hc : ∀ x ∈ [c], isIdle x = true) (.inl rfl)
    hrest

theorem isIdle_of_mem_hexDigits {width n : Nat} {c : Char} (h : c ∈ hexDigits width n) :
    isIdle c = true := by
  have hdigit : ∀ k < 16, isIdle (hexDigit k) = true := by decide
  induction width generalizing n with
  | zero => cases h
  | succ width ih =>
    rcases List.mem_append.mp h with h | h
    · exact ih h
    · rw [List.mem_singleton.mp h]
      exact hdigit _ (Nat.mod_lt _ (by decide))

theorem shortEscape_idle {c e : Char} (h : shortEscape? c = some e) : isLineBreak e = false := by
  unfold shortEscape? at h
  split at h <;> first
    | (obtain rfl := Option.some.inj h; rfl)
    | cases h

theorem framed_compactChar (c : Char) {rest : List Char} (hrest : Framed .inside rest) :
    Framed .inside (compactChar c ++ rest) := by
  -- A short escape, a code, or the character as it is.
  unfold compactChar
  split
  · rename_i e he
    refine ⟨fun _ => rfl, fun h => absurd h (by decide), ?_⟩
    refine ⟨fun hbreak => ?_, fun _ h => Quoting.noConfusion h, hrest⟩
    rw [shortEscape_idle he] at hbreak
    cases hbreak
  · rename_i hshort
    have hquote : c ≠ '"' := by
      rintro rfl
      cases hshort
    have hbackslash : c ≠ '\\' := by
      rintro rfl
      cases hshort
    split
    · refine ⟨fun _ => rfl, fun h => absurd h (by decide), ?_⟩
      refine ⟨fun h => absurd h (by decide), fun h => absurd h (by decide), ?_⟩
      exact framed_idle (fun x => isIdle_of_mem_hexDigits) (.inr rfl) hrest
    · refine ⟨fun _ => rfl, fun h => absurd h hquote, ?_⟩
      rw [step_of_isPlain (by simp [isPlain, hquote, hbackslash]) (.inr rfl)]
      exact hrest

theorem framed_string (cs : List Char) {rest : List Char} (hrest : Framed .outside rest)
    (hmark : AfterString rest) :
    Framed .outside ('"' :: (cs.flatMap compactChar ++ '"' :: rest)) := by
  refine ⟨fun h => absurd h (by decide), fun _ h => Quoting.noConfusion h, ?_⟩
  change Framed .inside (cs.flatMap compactChar ++ '"' :: rest)
  induction cs with
  | nil => exact ⟨fun _ => rfl, fun _ _ => hmark, hrest⟩
  | cons c cs ih =>
    rw [List.flatMap_cons, List.append_assoc]
    exact framed_compactChar c ih

/-! ### Values -/

theorem isIdle_of_isDigitAscii {c : Char} (h : isDigitAscii c = true) : isIdle c = true := by
  rw [isIdle, isPlain_of_isDigitAscii h, isLineBreak_of_isDigitAscii h]
  rfl

theorem isIdle_of_mem_toString {n : Int} {c : Char} (h : c ∈ (toString n).toList) :
    isIdle c = true := by
  cases n with
  | ofNat m =>
    rw [toList_toString_ofNat] at h
    exact isIdle_of_isDigitAscii (isDigitAscii_of_mem_toDigits h)
  | negSucc m =>
    rw [toList_toString_negSucc] at h
    rcases List.mem_cons.mp h with rfl | h
    · rfl
    · exact isIdle_of_isDigitAscii (isDigitAscii_of_mem_toDigits h)

theorem isIdle_of_mem_numberText {n : JsonNumber} {c : Char} (h : c ∈ (numberText n).toList) :
    isIdle c = true := by
  have hword : ∀ w ∈ ["NaN", "Infinity", "-Infinity"], w.toList.all isIdle = true := by decide
  cases n with
  | integer n => exact isIdle_of_mem_toString h
  | decimal mantissa exponent =>
    have htext : (numberText (.decimal mantissa exponent)).toList =
        (toString mantissa).toList ++ 'e' :: (toString exponent).toList := by
      simp [numberText]
      rfl
    rw [htext] at h
    rcases List.mem_append.mp h with h | h
    · exact isIdle_of_mem_toString h
    · rcases List.mem_cons.mp h with rfl | h
      · rfl
      · exact isIdle_of_mem_toString h
  | notANumber => exact List.all_eq_true.mp (hword "NaN" (by decide)) c h
  | infinite negative =>
    cases negative with
    | false => exact List.all_eq_true.mp (hword "Infinity" (by decide)) c h
    | true => exact List.all_eq_true.mp (hword "-Infinity" (by decide)) c h

mutual

/-- **Records are framed.** -/
theorem framed_compact (j : Json) {rest : List Char} (hrest : Framed .outside rest)
    (hmark : AfterValue rest) : Framed .outside ((compact j).toList ++ rest) := by
  have hword : ∀ w ∈ ["null", "true", "false"], w.toList.all isIdle = true := by decide
  cases j with
  | null => exact framed_idle (List.all_eq_true.mp (hword "null" (by simp))) (.inl rfl) hrest
  | bool b =>
    cases b with
    | false => exact framed_idle (List.all_eq_true.mp (hword "false" (by simp))) (.inl rfl) hrest
    | true => exact framed_idle (List.all_eq_true.mp (hword "true" (by simp))) (.inl rfl) hrest
  | number n => exact framed_idle (fun _ => isIdle_of_mem_numberText) (.inl rfl) hrest
  | string s =>
    rw [compact, toList_quotedBy, List.cons_append, List.cons_append, List.append_assoc]
    exact framed_string s.toList hrest hmark.afterString
  | array items =>
    rw [toList_compact_array, List.cons_append, List.cons_append, List.append_assoc]
    refine framed_mark (c := '[') rfl ?_
    refine framed_itemsText items ?_ (afterValue_cons (.inr (.inl rfl)) rest)
    exact framed_mark (c := ']') rfl hrest
  | object members =>
    rw [toList_compact_object, List.cons_append, List.cons_append, List.append_assoc]
    refine framed_mark (c := '{') rfl ?_
    refine framed_membersText members ?_ (afterValue_cons (.inr (.inr rfl)) rest)
    exact framed_mark (c := '}') rfl hrest

theorem framed_itemsText (items : List Json) {rest : List Char} (hrest : Framed .outside rest)
    (hmark : AfterValue rest) : Framed .outside (itemsText items ++ rest) := by
  cases items with
  | nil => exact hrest
  | cons item items =>
    cases items with
    | nil =>
      rw [itemsText_singleton]
      exact framed_compact item hrest hmark
    | cons next items =>
      rw [itemsText_cons, List.append_assoc]
      refine framed_compact item ?_ (afterValue_cons (.inl rfl) _)
      refine framed_mark (c := ',') rfl ?_
      exact framed_itemsText (next :: items) hrest hmark

theorem framed_membersText (members : List (String × Json)) {rest : List Char}
    (hrest : Framed .outside rest) (hmark : AfterValue rest) :
    Framed .outside (membersText members ++ rest) := by
  have hname : ∀ after, AfterString (':' :: after) := fun after c hc =>
    .inl (Option.some.inj hc).symm
  cases members with
  | nil => exact hrest
  | cons m members =>
    obtain ⟨name, value⟩ := m
    cases members with
    | nil =>
      rw [membersText_singleton, List.cons_append, List.append_assoc]
      refine framed_string name.toList (framed_mark (c := ':') rfl ?_) (hname _)
      exact framed_compact value hrest hmark
    | cons next members =>
      rw [membersText_cons, List.cons_append, List.append_assoc, List.cons_append,
        List.cons_append, List.append_assoc]
      refine framed_string name.toList (framed_mark (c := ':') rfl ?_) (hname _)
      refine framed_compact value ?_ (afterValue_cons (.inl rfl) _)
      refine framed_mark (c := ',') rfl ?_
      exact framed_membersText (next :: members) hrest hmark

end

/-! ## Pieces of a record -/

/-- A record that is cut where a line ends falls into pieces that are no objects with proper names:
the names of what a piece could be begin with a mark. -/
theorem head?_of_parse_piece {j : Json} {before piece after : List Char}
    (htext : (compact j).toList = before ++ (piece ++ after)) (hcut : before ≠ [] ∨ after ≠ [])
    (hbefore : LineStart before) (hafter : LineEnd after) {ms : List (String × Json)}
    (hparse : parse .strict piece = .ok (object ms)) :
    ∀ m ∈ ms, ∀ c ∈ m.1.toList.head?, c = ':' ∨ c = ',' ∨ c = ']' ∨ c = '}' := by
  have hframed : Framed .outside (before ++ (piece ++ after)) := by
    rw [← htext, ← List.append_nil (compact j).toList]
    exact framed_compact j rfl fun _ hc => absurd hc (by simp)
  rcases before.eq_nil_or_concat with rfl | ⟨first, w, rfl⟩
  · -- The first piece ends before a break and thus in a string, but what is read ends outside.
    obtain ⟨w, after, rfl⟩ := List.exists_cons_of_ne_nil (hcut.resolve_left (by simp))
    rw [List.nil_append] at hframed
    have hstand := hframed.of_append.1 (hafter w rfl)
    rw [scan_of_parse hparse] at hstand
    cases hstand
  · -- The others begin behind a break and thus in a string.
    have hw : isLineBreak w = true := hbefore w (by simp)
    have hplain : isPlain w = true := by
      simp only [isPlain, Bool.and_eq_true, bne_iff_ne]
      constructor <;> (rintro rfl; cases hw)
    rw [List.concat_eq_append, List.append_assoc, List.singleton_append] at hframed
    have hstand := hframed.of_append
    have hpiece : Framed .inside (piece ++ after) := by
      have hnext := hstand.2.2
      rwa [hstand.1 hw, step_of_isPlain hplain (.inr rfl)] at hnext
    intro m hm c hc
    obtain ⟨tail, fuel, rest, ⟨read, rfl, hread⟩, hname⟩ := namedIn_of_parse hparse m hm
    rw [List.append_assoc, List.cons_append] at hpiece
    have hquote := hpiece.of_append
    -- Where a name of the piece begins, a string of the record ends.
    have hends : scan .inside read = .inside := by
      have hswap : scan .inside read = (scan .outside read).swap :=
        (scan_swap (.inl rfl) (by rw [hread]; exact Quoting.noConfusion)
          fun hastray => not_framed_astray _ (hastray ▸ hquote)).1
      rw [hswap, hread]
      rfl
    have hmark : AfterString (tail ++ after) := hquote.2.1 rfl hends
    obtain ⟨cs, hcs⟩ : ∃ cs, m.1.toList = c :: cs := List.head?_eq_some_iff.mp hc
    have hhead : ∀ x, tail.head? = some x → (tail ++ after).head? = some x := by
      intro x hx
      rw [List.head?_append, hx]
      rfl
    rw [hcs] at hname
    rcases head?_of_readString hname with hescape | hself
    · exact absurd (hmark _ (hhead _ hescape)) (by decide)
    · exact hmark c (hhead c hself)

/-! ## Records of one line -/

/-- The characters that end lines and are written as they are. -/
def wideBreaks : List Char := ['\u0085', '\u2028', '\u2029']

/-- No character of the string ends a line where it is written as it is. -/
def Narrow (s : String) : Prop := ∀ c ∈ s.toList, c ∉ wideBreaks

instance (s : String) : Decidable (Narrow s) :=
  List.decidableBAll _ s.toList

mutual

/-- The strings in a value, those that are names included. -/
def strings : Json → List String
  | .string s => [s]
  | .array items => itemStrings items
  | .object members => memberStrings members
  | _ => []

def itemStrings : List Json → List String
  | [] => []
  | item :: rest => strings item ++ itemStrings rest

def memberStrings : List (String × Json) → List String
  | [] => []
  | (name, value) :: rest => name :: strings value ++ memberStrings rest

end

theorem itemStrings_eq_flatMap (items : List Json) : itemStrings items = items.flatMap strings := by
  induction items with
  | nil => rfl
  | cons item items ih => rw [itemStrings, ih, List.flatMap_cons]

theorem memberStrings_eq_flatMap (members : List (String × Json)) :
    memberStrings members = members.flatMap fun m => m.1 :: strings m.2 := by
  induction members with
  | nil => rfl
  | cons m members ih => rw [memberStrings, ih, List.flatMap_cons]

theorem unbroken_append {first rest : List Char} :
    Unbroken (first ++ rest) ↔ Unbroken first ∧ Unbroken rest := List.forall_mem_append

theorem unbroken_cons {c : Char} (hc : isLineBreak c = false) {rest : List Char} :
    Unbroken (c :: rest) ↔ Unbroken rest := by
  rw [Unbroken, List.forall_mem_cons]
  exact and_iff_right hc

theorem unbroken_idle {text : List Char} (h : ∀ c ∈ text, isIdle c = true) : Unbroken text := by
  intro c hc
  have hidle := h c hc
  simp only [isIdle, Bool.and_eq_true, Bool.not_eq_true'] at hidle
  exact hidle.2

theorem mem_wideBreaks_iff {c : Char} :
    c ∈ wideBreaks ↔ c.toNat = 0x85 ∨ c.toNat = 0x2028 ∨ c.toNat = 0x2029 := by
  simp only [wideBreaks, List.mem_cons, List.not_mem_nil, or_false, ← Char.toNat_inj]
  rfl

/-- Of the characters that end lines, those below the space are escaped. -/
theorem unbroken_compactChar (c : Char) : Unbroken (compactChar c) ↔ c ∉ wideBreaks := by
  unfold compactChar
  split
  · rename_i e he
    have hescape : ∀ x ∈ wideBreaks, shortEscape? x = none := by
      simp only [wideBreaks, List.forall_mem_cons, List.not_mem_nil, false_imp_iff, implies_true,
        and_true]
      exact ⟨rfl, rfl, rfl⟩
    refine iff_of_true ?_ fun hc => ?_
    · rw [unbroken_cons rfl, unbroken_cons (shortEscape_idle he)]
      exact fun x hx => absurd hx List.not_mem_nil
    · rw [hescape c hc] at he
      cases he
  · rw [mem_wideBreaks_iff]
    split
    · rename_i hcontrol
      refine iff_of_true ?_ (by omega)
      rw [codeEscape, unbroken_cons rfl, unbroken_cons rfl]
      exact unbroken_idle fun x => isIdle_of_mem_hexDigits
    · rename_i hcontrol
      rw [Unbroken, List.forall_mem_singleton, ← Bool.not_eq_true, isLineBreak_eq_true_iff]
      omega

theorem unbroken_flatMap_compactChar (cs : List Char) :
    Unbroken (cs.flatMap compactChar) ↔ ∀ c ∈ cs, c ∉ wideBreaks := by
  induction cs with
  | nil => simp [Unbroken]
  | cons c cs ih =>
    rw [List.flatMap_cons, unbroken_append, unbroken_compactChar, ih, List.forall_mem_cons]

theorem unbroken_string (s : String) (rest : List Char) :
    Unbroken ('"' :: (s.toList.flatMap compactChar ++ '"' :: rest)) ↔ Narrow s ∧ Unbroken rest := by
  rw [unbroken_cons rfl, unbroken_append, unbroken_flatMap_compactChar, unbroken_cons rfl]
  rfl

mutual

/-- **A record is one line** exactly if no string in it holds a wide line end. -/
theorem unbroken_compact_iff (j : Json) :
    Unbroken (compact j).toList ↔ ∀ s ∈ strings j, Narrow s := by
  cases j with
  | null => exact iff_of_true (by decide) (by simp [strings])
  | bool b => cases b <;> exact iff_of_true (by decide) (by simp [strings])
  | number n =>
    exact iff_of_true (unbroken_idle fun _ => isIdle_of_mem_numberText) (by simp [strings])
  | string s =>
    rw [compact, toList_quotedBy, List.cons_append, unbroken_string, strings,
      List.forall_mem_singleton]
    exact and_iff_left (by decide)
  | array items =>
    rw [toList_compact_array, List.cons_append, unbroken_cons rfl, unbroken_append,
      unbroken_itemsText_iff, strings]
    exact and_iff_left (by decide)
  | object members =>
    rw [toList_compact_object, List.cons_append, unbroken_cons rfl, unbroken_append,
      unbroken_membersText_iff, strings]
    exact and_iff_left (by decide)

theorem unbroken_itemsText_iff (items : List Json) :
    Unbroken (itemsText items) ↔ ∀ s ∈ itemStrings items, Narrow s := by
  cases items with
  | nil => exact iff_of_true (by decide) (by simp [itemStrings])
  | cons item items =>
    rw [itemStrings, List.forall_mem_append, ← unbroken_compact_iff item]
    cases items with
    | nil =>
      rw [itemsText_singleton]
      exact (and_iff_left (by simp [itemStrings])).symm
    | cons next items =>
      rw [itemsText_cons, unbroken_append, unbroken_cons rfl,
        unbroken_itemsText_iff (next :: items)]

theorem unbroken_membersText_iff (members : List (String × Json)) :
    Unbroken (membersText members) ↔ ∀ s ∈ memberStrings members, Narrow s := by
  cases members with
  | nil => exact iff_of_true (by decide) (by simp [memberStrings])
  | cons m members =>
    obtain ⟨name, value⟩ := m
    rw [memberStrings, List.cons_append, List.forall_mem_cons, List.forall_mem_append,
      ← unbroken_compact_iff value]
    cases members with
    | nil =>
      rw [membersText_singleton, unbroken_string, unbroken_cons rfl]
      exact and_congr_right fun _ => (and_iff_left (by simp [memberStrings])).symm
    | cons next members =>
      rw [membersText_cons, unbroken_string, unbroken_cons rfl, unbroken_append, unbroken_cons rfl,
        unbroken_membersText_iff (next :: members)]

end

end PlanAudit.Json
