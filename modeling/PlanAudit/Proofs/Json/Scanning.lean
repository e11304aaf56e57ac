import PlanAudit.Proofs.Fault
import PlanAudit.Proofs.Json.RoundTrip

/-!
# How a reader of JSON goes through strings

Whether a place in a JSON text lies in a string can be told by going through the text once.  A
reader begins and ends outside of strings, and so does every value in it; the names of an object are
strings that begin outside of strings.

## Main definitions

* `Quoting`, `scan`: whether a reader stands in a string
* `Moves`: a reader goes on in a text
* `NamedIn`: a name stands in a text

## Main results

* `scan_swap`: what happens to a reader that takes inside and outside for each other
* `moves_of_read`: what is read ends outside of strings
* `scan_of_parse`: a JSON text ends outside of strings
* `namedIn_of_parse`: where the names of an object stand
-/

namespace PlanAudit.Json

open PlanAudit.Text

/-! ## Inside and outside of strings -/

/-- Whether a reader stands in a string. -/
inductive Quoting where
  | outside
  | inside
  /-- In a string, behind a backslash. -/
  | escaped
  /-- Behind a backslash outside of strings, which is not JSON. -/
  | astray
  deriving DecidableEq, Repr

/-- Where a reader stands behind one more character. -/
def Quoting.step : Quoting → Char → Quoting
  | outside, c => if c = '"' then inside else if c = '\\' then astray else outside
  | inside, c => if c = '"' then outside else if c = '\\' then escaped else inside
  | escaped, _ => inside
  | astray, _ => astray

/-- Where a reader stands behind a text. -/
def scan (q : Quoting) (text : List Char) : Quoting := text.foldl Quoting.step q

theorem scan_cons (q : Quoting) (c : Char) (text : List Char) :
    scan q (c :: text) = scan (q.step c) text := rfl

theorem scan_append (q : Quoting) (first rest : List Char) :
    scan q (first ++ rest) = scan (scan q first) rest := List.foldl_append

/-- A character that neither opens nor ends strings nor stands before another. -/
def isPlain (c : Char) : Bool := c != '"' && c != '\\'

theorem step_of_isPlain {q : Quoting} {c : Char} (hc : isPlain c = true)
    (hq : q = .outside ∨ q = .inside) : q.step c = q := by
  simp only [isPlain, Bool.and_eq_true, bne_iff_ne] at hc
  rcases hq with rfl | rfl <;> simp [Quoting.step, hc]

theorem scan_plain {text : List Char} (h : ∀ c ∈ text, isPlain c = true) {q : Quoting}
    (hq : q = .outside ∨ q = .inside) : scan q text = q := by
  induction text with
  | nil => rfl
  | cons c text ih =>
    rw [scan_cons, step_of_isPlain (h c List.mem_cons_self) hq]
    exact ih fun x hx => h x (List.mem_cons_of_mem c hx)

/-- Inside and outside taken for each other. -/
def Quoting.swap : Quoting → Quoting
  | outside => inside
  | inside => outside
  | q => q

/-- Two readers that take inside and outside for each other go on to do so, unless one of them meets
a backslash. -/
theorem scan_swap {text : List Char} {q : Quoting} (hq : q = .outside ∨ q = .inside)
    (h : scan q text ≠ .astray) (hswap : scan q.swap text ≠ .astray) :
    scan q.swap text = (scan q text).swap ∧ (scan q text = .outside ∨ scan q text = .inside) := by
  induction text generalizing q with
  | nil => exact ⟨rfl, hq⟩
  | cons c text ih =>
    have hastray : ∀ t, scan .astray t = .astray := fun t => by
      induction t with
      | nil => rfl
      | cons x t ih => exact ih
    rw [scan_cons] at h hswap ⊢
    rw [scan_cons]
    by_cases hbackslash : c = '\\'
    · -- One of the two stands outside.
      subst hbackslash
      rcases hq with rfl | rfl
      · exact absurd (hastray text) h
      · exact absurd (hastray text) hswap
    · have hstep : q.swap.step c = (q.step c).swap ∧
          (q.step c = .outside ∨ q.step c = .inside) := by
        by_cases hquote : c = '"'
        · subst hquote
          rcases hq with rfl | rfl <;> simp [Quoting.step, Quoting.swap]
        · rcases hq with rfl | rfl <;> simp [Quoting.step, Quoting.swap, hbackslash, hquote]
      rw [hstep.1] at hswap ⊢
      exact ih hstep.2 h hswap

/-! ## How a reader goes on -/

/-- A reader goes on in a text, from where it stands to where it then stands. -/
def Moves (q : Quoting) (text rest : List Char) (q' : Quoting) : Prop :=
  ∃ read, text = read ++ rest ∧ scan q read = q'

theorem Moves.refl (q : Quoting) (text : List Char) : Moves q text text q := ⟨[], rfl, rfl⟩

theorem Moves.trans {q q' q'' : Quoting} {text rest rest' : List Char} (h : Moves q text rest q')
    (h' : Moves q' rest rest' q'') : Moves q text rest' q'' := by
  obtain ⟨read, rfl, rfl⟩ := h
  obtain ⟨read', rfl, rfl⟩ := h'
  exact ⟨read ++ read', (List.append_assoc ..).symm, scan_append q read read'⟩

theorem Moves.cons {q q' : Quoting} {c : Char} {text rest : List Char}
    (h : Moves (q.step c) text rest q') : Moves q (c :: text) rest q' := by
  obtain ⟨read, rfl, rfl⟩ := h
  exact ⟨c :: read, rfl, rfl⟩

theorem Moves.plain {read text rest : List Char} (h : ∀ c ∈ read, isPlain c = true)
    (htext : text = read ++ rest) {q : Quoting} (hq : q = .outside ∨ q = .inside) :
    Moves q text rest q :=
  ⟨read, htext, scan_plain h hq⟩

theorem moves_plain_cons {c : Char} (hc : isPlain c = true) (rest : List Char) :
    Moves .outside (c :: rest) rest .outside := by
  apply Moves.cons
  rw [step_of_isPlain hc (.inl rfl)]
  exact Moves.refl _ rest

theorem moves_skipSpace (text : List Char) : Moves .outside text (skipSpace text) .outside := by
  refine Moves.plain ?_ List.takeWhile_append_dropWhile.symm (.inl rfl)
  intro c hc
  have hspace := List.all_eq_true.mp List.all_takeWhile c hc
  simp only [isSpace, Bool.or_eq_true, beq_iff_eq] at hspace
  rcases hspace with ((rfl | rfl) | rfl) | rfl <;> rfl

/-! ### Strings -/

variable {d : Dialect}

theorem isPlain_of_hexValue? {c : Char} {n : Nat} (h : hexValue? c = some n) :
    isPlain c = true := by
  have hne : c ≠ '"' ∧ c ≠ '\\' := by
    constructor <;> (rintro rfl; cases h)
  simp [isPlain, hne]

theorem moves_of_readCode? {text rest : List Char} {n : Nat} (h : readCode? text = some (n, rest)) :
    Moves .inside text rest .inside := by
  unfold readCode? at h
  split at h
  · rename_i c₁ c₂ c₃ c₄ after
    simp only [Option.bind_eq_bind, Option.bind_eq_some_iff, Option.some.injEq, Prod.mk.injEq] at h
    obtain ⟨n₁, h₁, n₂, h₂, n₃, h₃, n₄, h₄, -, rfl⟩ := h
    have hplain : ∀ c ∈ [c₁, c₂, c₃, c₄], isPlain c = true := by
      simp [isPlain_of_hexValue? h₁, isPlain_of_hexValue? h₂, isPlain_of_hexValue? h₃,
        isPlain_of_hexValue? h₄]
    exact Moves.plain hplain rfl (.inr rfl)
  · cases h

theorem moves_of_readEscapedCode {text rest : List Char} {c : Char}
    (h : readEscapedCode d text = .ok (c, rest)) : Moves .inside text rest .inside := by
  unfold readEscapedCode at h
  split at h
  · cases h
  · rename_i code after hcode
    have hfirst := moves_of_readCode? hcode
    -- One code is read, unless it is the first half of a pair and the second follows.
    have hhalf : d.halfPair.map (fun c => (c, after)) = .ok (c, rest) →
        Moves .inside text rest .inside := by
      intro hhalf
      cases hpair : d.halfPair with
      | error fault =>
        rw [hpair] at hhalf
        cases hhalf
      | ok half =>
        rw [hpair] at hhalf
        obtain ⟨-, rfl⟩ := Prod.mk.inj (Except.ok.inj hhalf)
        exact hfirst
    split at h
    · split at h
      · rename_i after'
        split at h
        · cases h
        · rename_i low rest' hlow
          split at h
          · obtain ⟨-, rfl⟩ := Prod.mk.inj (Except.ok.inj h)
            exact hfirst.trans (Moves.cons (Moves.cons (moves_of_readCode? hlow)))
          · exact hhalf h
      · exact hhalf h
    · split at h
      · exact hhalf h
      · obtain ⟨-, rfl⟩ := Prod.mk.inj (Except.ok.inj h)
        exact hfirst

/-- What one step in a string does: the string ends, or one character of it is read, which stands
there itself or is escaped. -/
theorem readString_step {fuel : Nat} {text cs rest : List Char}
    (h : readString d (fuel + 1) text = .ok (cs, rest)) :
    (text = '"' :: rest ∧ cs = []) ∨
    ∃ c cs' after, cs = c :: cs' ∧ readString d fuel after = .ok (cs', rest) ∧
      Moves .inside text after .inside ∧ (text.head? = some '\\' ∨ text.head? = some c) := by
  unfold readString at h
  split at h
  · cases h
  · cases h
  · -- The string ends.
    obtain ⟨rfl, rfl⟩ := Prod.mk.inj (Except.ok.inj h)
    exact .inl ⟨rfl, rfl⟩
  · -- A code.
    rename_i after hfuel
    obtain rfl := Nat.succ.inj hfuel
    obtain ⟨⟨c, after'⟩, hcode, h⟩ := bind_eq_ok_iff.mp h
    obtain ⟨⟨cs', rest'⟩, hrest, h⟩ := bind_eq_ok_iff.mp h
    obtain ⟨rfl, rfl⟩ := Prod.mk.inj (Except.ok.inj h)
    exact .inr ⟨c, cs', after', rfl, hrest,
      Moves.cons (Moves.cons (moves_of_readEscapedCode hcode)), .inl rfl⟩
  · -- A short escape.
    rename_i e after _ hfuel
    obtain rfl := Nat.succ.inj hfuel
    split at h
    · cases h
    · rename_i c _
      obtain ⟨⟨cs', rest'⟩, hrest, h⟩ := map_eq_ok_iff.mp h
      obtain ⟨rfl, rfl⟩ := Prod.mk.inj h
      exact .inr ⟨c, cs', after, rfl, hrest, Moves.cons (Moves.cons (Moves.refl _ after)), .inl rfl⟩
  · -- A character that stands for itself, which is no backslash and thus plain.
    rename_i c after hquote _ _ hfuel
    obtain rfl := Nat.succ.inj hfuel
    split at h
    · cases h
    · rename_i hc
      obtain ⟨⟨cs', rest'⟩, hrest, h⟩ := map_eq_ok_iff.mp h
      obtain ⟨rfl, rfl⟩ := Prod.mk.inj h
      have hplain : isPlain c = true := by
        simp only [Bool.or_eq_true, not_or, beq_iff_eq] at hc
        simp [isPlain, hc.1, show c ≠ '"' from hquote]
      refine .inr ⟨c, cs', after, rfl, hrest, Moves.cons ?_, .inr rfl⟩
      rw [step_of_isPlain hplain (.inr rfl)]
      exact Moves.refl _ after

theorem moves_of_readString {fuel : Nat} {text cs rest : List Char}
    (h : readString d fuel text = .ok (cs, rest)) : Moves .inside text rest .outside := by
  induction fuel generalizing text cs rest with
  | zero => cases h
  | succ fuel ih =>
    rcases readString_step h with ⟨rfl, -⟩ | ⟨c, cs', after, -, hrest, hmoves, -⟩
    · exact Moves.cons (Moves.refl _ rest)
    · exact hmoves.trans (ih hrest)

theorem head?_of_readString {fuel : Nat} {text cs rest : List Char} {c : Char}
    (h : readString d fuel text = .ok (c :: cs, rest)) :
    text.head? = some '\\' ∨ text.head? = some c := by
  cases fuel with
  | zero => cases h
  | succ fuel =>
    rcases readString_step h with ⟨-, hnil⟩ | ⟨c', cs', after, heq, -, -, hhead⟩
    · cases hnil
    · rwa [(List.cons.inj heq).1]

/-! ### Words and numbers -/

theorem moves_of_readWord? {text rest : List Char} {v : Json}
    (h : readWord? text = some (v, rest)) : Moves .outside text rest .outside := by
  obtain ⟨w, hw, heq⟩ := Option.map_eq_some_iff.mp h
  obtain ⟨rfl, rfl⟩ := Prod.mk.inj heq
  have hplain : ∀ w ∈ words, w.1.toList.all isPlain = true := by decide
  have hbegins := List.find?_some hw
  simp only [beginsWith, List.isPrefixOf_iff_prefix] at hbegins
  refine Moves.plain (List.all_eq_true.mp (hplain w (List.mem_of_find?_eq_some hw))) ?_ (.inl rfl)
  exact (List.prefix_iff_eq_append.mp hbegins).symm

theorem isPlain_of_isDigitAscii {c : Char} (h : isDigitAscii c = true) : isPlain c = true := by
  simp (disch := decide) [isPlain, ne_of_isDigitAscii h]

theorem moves_of_spanDigits {text digits rest : List Char} (h : spanDigits text = (digits, rest)) :
    Moves .outside text rest .outside := by
  obtain ⟨rfl, rfl⟩ := Prod.mk.inj h
  refine Moves.plain ?_ List.takeWhile_append_dropWhile.symm (.inl rfl)
  intro c hc
  exact isPlain_of_isDigitAscii (List.all_eq_true.mp List.all_takeWhile c hc)

theorem moves_of_integralPart? {text digits rest : List Char}
    (h : integralPart? text = some (digits, rest)) : Moves .outside text rest .outside := by
  unfold integralPart? at h
  split at h
  · obtain ⟨rfl, rfl⟩ := Prod.mk.inj (Option.some.inj h)
    exact moves_plain_cons rfl _
  · split at h
    · cases h
    · rename_i hspan
      obtain ⟨rfl, rfl⟩ := Prod.mk.inj (Option.some.inj h)
      exact moves_of_spanDigits hspan

theorem moves_fractionPart (text : List Char) :
    Moves .outside text (fractionPart text).2 .outside := by
  unfold fractionPart
  split
  · split
    · exact Moves.refl _ _
    · rename_i hspan
      exact Moves.cons (moves_of_spanDigits hspan)
  · exact Moves.refl _ _

theorem moves_exponentPart (text : List Char) :
    Moves .outside text (exponentPart text).2 .outside := by
  unfold exponentPart
  split
  · rename_i e after
    split
    · rename_i he
      have hplain : isPlain e = true := by
        simp only [Bool.or_eq_true, beq_iff_eq] at he
        rcases he with rfl | rfl <;> rfl
      -- The sign, if there is one, is plain as well.
      split
      rename_i negative digitsFrom hsign
      have hfrom : Moves .outside (e :: after) digitsFrom .outside := by
        refine (moves_plain_cons hplain after).trans ?_
        split at hsign
        all_goals obtain ⟨-, rfl⟩ := Prod.mk.inj hsign
        · exact moves_plain_cons rfl _
        · exact moves_plain_cons rfl _
        · exact Moves.refl _ _
      split
      · exact Moves.refl _ _
      · rename_i hspan
        exact hfrom.trans (moves_of_spanDigits hspan)
    · exact Moves.refl _ _
  · exact Moves.refl _ _

theorem moves_of_readMagnitude {negative : Bool} {text rest : List Char} {n : JsonNumber}
    (h : readMagnitude d negative text = .ok (n, rest)) : Moves .outside text rest .outside := by
  unfold readMagnitude at h
  split at h
  · cases h
  · rename_i whole afterWhole hwhole
    have hmoves : Moves .outside text (exponentPart (fractionPart afterWhole).2).2 .outside :=
      ((moves_of_integralPart? hwhole).trans (moves_fractionPart _)).trans (moves_exponentPart _)
    simp only at h
    split at h
    · cases h
    · split at h <;>
      · obtain ⟨-, rfl⟩ := Prod.mk.inj (Except.ok.inj h)
        exact hmoves

theorem moves_of_readNumber {text rest : List Char} {v : Json}
    (h : readNumber d text = .ok (v, rest)) : Moves .outside text rest .outside := by
  obtain ⟨⟨n, rest'⟩, hread, heq⟩ := map_eq_ok_iff.mp h
  obtain ⟨-, rfl⟩ := Prod.mk.inj heq
  split at hread
  · exact Moves.cons (moves_of_readMagnitude hread)
  · exact moves_of_readMagnitude hread

/-! ### Values -/

/-- A string at this place in the text is the name. -/
def NamedIn (d : Dialect) (text : List Char) (name : String) : Prop :=
  ∃ after fuel rest, Moves .outside text ('"' :: after) .outside ∧
    readString d fuel after = .ok (name.toList, rest)

theorem NamedIn.of_moves {text rest : List Char} {name : String}
    (hmoves : Moves .outside text rest .outside) (h : NamedIn d rest name) :
    NamedIn d text name := by
  obtain ⟨after, fuel, rest', hafter, hread⟩ := h
  exact ⟨after, fuel, rest', hmoves.trans hafter, hread⟩

/-- What one step through an array does: an item is read, and the array ends or goes on. -/
theorem readItems_step {fuel depth : Nat} {text rest : List Char} {items : List Json}
    (h : readItems d (fuel + 1) depth text = .ok (items, rest)) :
    ∃ item after, readValue d fuel depth text = .ok (item, after) ∧
      (skipSpace after = ']' :: rest ∨ ∃ next items', skipSpace after = ',' :: next ∧
        readItems d fuel depth (skipSpace next) = .ok (items', rest)) := by
  rw [readItems] at h
  obtain ⟨⟨item, after⟩, hitem, h⟩ := bind_eq_ok_iff.mp h
  refine ⟨item, after, hitem, ?_⟩
  simp only at h
  split at h
  · rename_i hspace
    obtain ⟨-, rfl⟩ := Prod.mk.inj (Except.ok.inj h)
    exact .inl hspace
  · rename_i next hspace
    obtain ⟨⟨items', rest'⟩, hitems, h⟩ := bind_eq_ok_iff.mp h
    obtain ⟨-, rfl⟩ := Prod.mk.inj (Except.ok.inj h)
    exact .inr ⟨next, items', hspace, hitems⟩
  · cases h

/-- What one step through an object does: a member is read, and the object ends or goes on. -/
theorem readMembers_step {fuel depth : Nat} {text rest : List Char} {ms : List (String × Json)}
    (h : readMembers d (fuel + 1) depth text = .ok (ms, rest)) :
    ∃ after name afterName next value afterValue, text = '"' :: after ∧
      readString d fuel after = .ok (name, afterName) ∧ skipSpace afterName = ':' :: next ∧
      readValue d fuel depth (skipSpace next) = .ok (value, afterValue) ∧
      ((skipSpace afterValue = '}' :: rest ∧ ms = [(String.ofList name, value)]) ∨
        ∃ next' ms', skipSpace afterValue = ',' :: next' ∧
          readMembers d fuel depth (skipSpace next') = .ok (ms', rest) ∧
          ms = (String.ofList name, value) :: ms') := by
  unfold readMembers at h
  split at h
  · rename_i after
    obtain ⟨⟨name, afterName⟩, hname, h⟩ := bind_eq_ok_iff.mp h
    simp only at h
    split at h
    · rename_i next hnext
      obtain ⟨⟨value, afterValue⟩, hvalue, h⟩ := bind_eq_ok_iff.mp h
      refine ⟨after, name, afterName, next, value, afterValue, rfl, hname, hnext, hvalue, ?_⟩
      simp only at h
      split at h
      · rename_i hspace
        obtain ⟨rfl, rfl⟩ := Prod.mk.inj (Except.ok.inj h)
        exact .inl ⟨hspace, rfl⟩
      · rename_i next' hspace
        obtain ⟨⟨ms', rest'⟩, hms, h⟩ := bind_eq_ok_iff.mp h
        obtain ⟨rfl, rfl⟩ := Prod.mk.inj (Except.ok.inj h)
        exact .inr ⟨next', ms', hspace, hms, rfl⟩
      · cases h
    · cases h
  · cases h

theorem moves_skipSpace_cons {text rest : List Char} {c : Char} (hc : isPlain c = true)
    (h : skipSpace text = c :: rest) : Moves .outside text rest .outside := by
  have hspace := moves_skipSpace text
  rw [h] at hspace
  exact hspace.trans (moves_plain_cons hc rest)

theorem not_isObject_of_readWord? {text rest : List Char} {v : Json}
    (h : readWord? text = some (v, rest)) : v.isObject = false := by
  obtain ⟨w, hw, heq⟩ := Option.map_eq_some_iff.mp h
  have hwords : ∀ w ∈ words, w.2.isObject = false := by
    intro w hw
    simp only [words, List.mem_cons, List.not_mem_nil, or_false] at hw
    rcases hw with rfl | rfl | rfl | rfl | rfl | rfl <;> rfl
  rw [← (Prod.mk.inj heq).1]
  exact hwords w (List.mem_of_find?_eq_some hw)

/-- What one step in front of a value does: a string, an array or an object is opened, or a word or
a number is read. -/
theorem readValue_step {fuel depth : Nat} {text rest : List Char} {v : Json}
    (h : readValue d (fuel + 1) depth text = .ok (v, rest)) :
    (∃ after cs, text = '"' :: after ∧ readString d fuel after = .ok (cs, rest) ∧
      v = string (String.ofList cs)) ∨
    (∃ after items, text = '[' :: after ∧ v = array items ∧ (skipSpace after = ']' :: rest ∨
      readItems d fuel (depth + 1) (skipSpace after) = .ok (items, rest))) ∨
    (∃ after, text = '{' :: after ∧ (skipSpace after = '}' :: rest ∧ v = object [] ∨
      ∃ ms, readMembers d fuel (depth + 1) (skipSpace after) = .ok (ms, rest) ∧
        v = d.objectOf ms)) ∨
    v.isObject = false ∧ Moves .outside text rest .outside := by
  unfold readValue at h
  split at h
  · rename_i after
    obtain ⟨⟨cs, rest'⟩, hread, h⟩ := map_eq_ok_iff.mp h
    obtain ⟨rfl, rfl⟩ := Prod.mk.inj h
    exact .inl ⟨after, cs, rfl, hread, rfl⟩
  · rename_i after
    refine .inr (.inl ?_)
    split at h
    · rename_i hspace
      obtain ⟨rfl, rfl⟩ := Prod.mk.inj (Except.ok.inj h)
      exact ⟨after, [], rfl, rfl, .inl hspace⟩
    · split at h
      · obtain ⟨⟨items, rest'⟩, hread, h⟩ := map_eq_ok_iff.mp h
        obtain ⟨rfl, rfl⟩ := Prod.mk.inj h
        exact ⟨after, items, rfl, rfl, .inr hread⟩
      · cases h
  · rename_i after
    refine .inr (.inr (.inl ⟨after, rfl, ?_⟩))
    split at h
    · rename_i hspace
      obtain ⟨rfl, rfl⟩ := Prod.mk.inj (Except.ok.inj h)
      exact .inl ⟨hspace, rfl⟩
    · split at h
      · obtain ⟨⟨ms, rest'⟩, hread, h⟩ := map_eq_ok_iff.mp h
        obtain ⟨rfl, rfl⟩ := Prod.mk.inj h
        exact .inr ⟨ms, hread, rfl⟩
      · cases h
  · refine .inr (.inr (.inr ?_))
    split at h
    · rename_i found hword
      rw [Except.ok.inj h] at hword
      exact ⟨not_isObject_of_readWord? hword, moves_of_readWord? hword⟩
    · have hmoves := moves_of_readNumber h
      obtain ⟨_, _, h⟩ := map_eq_ok_iff.mp h
      obtain ⟨rfl, -⟩ := Prod.mk.inj h
      exact ⟨rfl, hmoves⟩

/-- What is read as a value, as items or as members ends outside of strings, and the names of the
members are strings that begin outside of strings. -/
theorem moves_of_read (d : Dialect) (fuel : Nat) :
    (∀ depth text v rest, readValue d fuel depth text = .ok (v, rest) →
      Moves .outside text rest .outside) ∧
    (∀ depth text items rest, readItems d fuel depth text = .ok (items, rest) →
      Moves .outside text rest .outside) ∧
    (∀ depth text ms rest, readMembers d fuel depth text = .ok (ms, rest) →
      Moves .outside text rest .outside ∧ ∀ m ∈ ms, NamedIn d text m.1) := by
  -- Values lie in items and members, and these in values, so that all three go down together.
  induction fuel with
  | zero =>
    refine ⟨?_, ?_, ?_⟩
    all_goals
      intro depth text v rest h
      simp [readValue, readItems, readMembers] at h
  | succ fuel ih =>
    obtain ⟨ihValue, ihItems, ihMembers⟩ := ih
    refine ⟨?_, ?_, ?_⟩
    · intro depth text v rest h
      rcases readValue_step h with ⟨after, cs, rfl, hread, -⟩ | ⟨after, items, rfl, -, hend⟩ |
        ⟨after, rfl, hend⟩ | ⟨-, hmoves⟩
      · exact Moves.cons (moves_of_readString hread)
      · refine (moves_plain_cons rfl after).trans ?_
        rcases hend with hspace | hread
        · exact moves_skipSpace_cons rfl hspace
        · exact (moves_skipSpace after).trans (ihItems _ _ _ _ hread)
      · refine (moves_plain_cons rfl after).trans ?_
        rcases hend with ⟨hspace, -⟩ | ⟨ms, hread, -⟩
        · exact moves_skipSpace_cons rfl hspace
        · exact (moves_skipSpace after).trans (ihMembers _ _ _ _ hread).1
      · exact hmoves
    · intro depth text items rest h
      obtain ⟨item, after, hitem, hend⟩ := readItems_step h
      refine (ihValue _ _ _ _ hitem).trans ?_
      rcases hend with hend | ⟨next, items', hnext, hitems⟩
      · exact moves_skipSpace_cons rfl hend
      · exact ((moves_skipSpace_cons rfl hnext).trans (moves_skipSpace next)).trans
          (ihItems _ _ _ _ hitems)
    · intro depth text ms rest h
      obtain ⟨after, name, afterName, next, value, afterValue, rfl, hname, hnext, hvalue, hend⟩ :=
        readMembers_step h
      have hfirst : NamedIn d ('"' :: after) (String.ofList name) :=
        ⟨after, fuel, afterName, Moves.refl _ _, by rw [String.toList_ofList]; exact hname⟩
      have hopen : Moves .outside ('"' :: after) afterName .outside :=
        Moves.cons (moves_of_readString hname)
      have hmember : Moves .outside ('"' :: after) afterValue .outside :=
        ((hopen.trans (moves_skipSpace_cons rfl hnext)).trans (moves_skipSpace next)).trans
          (ihValue _ _ _ _ hvalue)
      rcases hend with ⟨hend, rfl⟩ | ⟨next', ms', hnext', hms, rfl⟩
      · refine ⟨hmember.trans (moves_skipSpace_cons rfl hend), ?_⟩
        intro m hm
        rw [List.mem_singleton.mp hm]
        exact hfirst
      · have hbefore := (hmember.trans (moves_skipSpace_cons rfl hnext')).trans
          (moves_skipSpace next')
        obtain ⟨hrest, hnames⟩ := ihMembers _ _ _ _ hms
        refine ⟨hbefore.trans hrest, ?_⟩
        intro m hm
        rcases List.mem_cons.mp hm with rfl | hm
        · exact hfirst
        · exact (hnames m hm).of_moves hbefore

/-- The names of an object that is read from a record are strings that begin outside of strings. -/
theorem namedIn_of_readValue {fuel depth : Nat} {text rest : List Char}
    {ms : List (String × Json)} (h : readValue .strict fuel depth text = .ok (object ms, rest)) :
    ∀ m ∈ ms, NamedIn .strict text m.1 := by
  cases fuel with
  | zero => simp [readValue] at h
  | succ fuel =>
    rcases readValue_step h with ⟨_, _, -, -, hv⟩ | ⟨_, _, -, hv, -⟩ | ⟨after, rfl, hend⟩ | ⟨hv, -⟩
    · cases hv
    · cases hv
    · rcases hend with ⟨-, hv⟩ | ⟨ms', hread, hv⟩
      · rw [Json.object.inj hv]
        intro m hm
        cases hm
      · -- A record keeps the members as they are read.
        obtain rfl := Json.object.inj hv
        have hbrace : Moves .outside ('{' :: after) after .outside := moves_plain_cons rfl after
        intro m hm
        exact (((moves_of_read .strict fuel).2.2 _ _ _ _ hread).2 m hm).of_moves
          (hbrace.trans (moves_skipSpace after))
    · cases hv

/-- A JSON text ends outside of strings. -/
theorem scan_of_parse {text : List Char} {v : Json} (h : parse d text = .ok v) :
    scan .outside text = .outside := by
  obtain ⟨⟨value, rest⟩, hread, hend⟩ := bind_eq_ok_iff.mp h
  simp only at hend
  split at hend
  · rename_i hnil
    have hrest := moves_skipSpace rest
    rw [List.isEmpty_iff.mp hnil] at hrest
    have hvalue := (moves_of_read d _).1 _ _ _ _ hread
    obtain ⟨read, rfl, hscan⟩ := ((moves_skipSpace text).trans hvalue).trans hrest
    rwa [List.append_nil]
  · cases hend

theorem namedIn_of_parse {text : List Char} {ms : List (String × Json)}
    (h : parse .strict text = .ok (object ms)) : ∀ m ∈ ms, NamedIn .strict text m.1 := by
  obtain ⟨⟨value, rest⟩, hread, hend⟩ := bind_eq_ok_iff.mp h
  simp only at hend
  split at hend
  · rw [Except.ok.inj hend] at hread
    intro m hm
    exact (namedIn_of_readValue hread m hm).of_moves (moves_skipSpace text)
  · cases hend

end PlanAudit.Json
