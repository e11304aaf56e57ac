import PlanAudit.Text.Alphabet
import PlanAudit.Text.CaseTable

/-!
# Letter case

Lower and upper case of texts in any script, and the comparison of letters that ignores case.

## Main definitions

* `lower`, `upper`: the full mappings of a text, in which one character may become several
* `foldedChar`: the lower-case letter that stands for a character in comparisons
* `sameLetter`: equality of characters up to case

## Main results

* `lowerAfter_append`: the lower case of two texts one after the other
* `sigma_notMem_of_lower`: a text whose lower case is in ASCII has no capital sigma
-/

namespace PlanAudit.Text

/-- Whether the code point `n` belongs to the row. -/
def CaseRow.covers (row : CaseRow) (n : Nat) : Bool :=
  row.first ≤ n && n ≤ row.last && (n - row.first) % row.step == 0

/-- The one-to-one mapping of a character by a table of rows; unlisted characters stay. -/
def mapByRows (rows : List CaseRow) (c : Char) : Char :=
  match rows.find? (·.covers c.toNat) with
  | some row => Char.ofNat (Int.toNat (c.toNat + row.shift))
  | none => c

/-- The lower-case letter that stands for `c` in comparisons. -/
def foldedChar (c : Char) : Char :=
  if c.toNat < 128 then (if isUpperAscii c then Char.ofNat (c.toNat + 32) else c)
  else if c == '\u0130' then 'i'
  else mapByRows lowerRows c

/-- The upper case of one character. -/
def upperChar (c : Char) : List Char :=
  if c.toNat < 128 then [if isLowerAscii c then Char.ofNat (c.toNat - 32) else c]
  else
    match upperExpansions.find? (·.1 == c.toNat) with
    | some (_, codes) => codes.map Char.ofNat
    | none => [mapByRows upperRows c]

/-- A letter with case that is not also skipped as case-ignorable. -/
def isCased (c : Char) : Bool :=
  if c.toNat < 128 then isUpperAscii c || isLowerAscii c else inRanges casedRanges c

/-- A character that is skipped when looking for a neighbour with case. -/
def isCaseIgnorable (c : Char) : Bool :=
  if c.toNat < 128 then ['\'', '.', ':', '^', '\x60'].contains c else inRanges caseIgnorableRanges c

/-- Whether the nearest character that is not skipped is a letter with case. -/
def casedFirst (cs : List Char) : Bool :=
  match cs.dropWhile isCaseIgnorable with
  | c :: _ => isCased c
  | [] => false

/-- The lower case of `c` between the reversed text before it and the text after it: a capital
sigma that ends a word becomes the final sigma. -/
def lowerBetween (before : List Char) (c : Char) (after : List Char) : List Char :=
  if c == '\u0130' then ['i', '\u0307']
  else if c == '\u03a3' then
    [if casedFirst before && !casedFirst after then '\u03c2' else '\u03c3']
  else [foldedChar c]

/-- The lower case of a text that follows `before`, which is given in reverse. -/
def lowerAfter (before : List Char) : List Char → List Char
  | [] => []
  | c :: rest => lowerBetween before c rest ++ lowerAfter (c :: before) rest

/-- The lower case of a text. -/
def lower (text : List Char) : List Char := lowerAfter [] text

/-- The upper case of a text. -/
def upper (text : List Char) : List Char := text.flatMap upperChar

/-- The lower case of a string. -/
def lowerCase (s : String) : String := String.ofList (lower s.toList)

/-- The upper case of a string. -/
def upperCase (s : String) : String := String.ofList (upper s.toList)

/-- Equality of characters up to case.  Lower-case letters that share their upper-case letter,
such as the dotted and the dotless `i`, count as the same. -/
def sameLetter (a b : Char) : Bool :=
  let a' := foldedChar a
  let b' := foldedChar b
  a' == b' || sharedUpperClasses.any fun cls => cls.contains a'.toNat && cls.contains b'.toNat

/-- Every character is the same letter as itself. -/
@[simp] theorem sameLetter_self (c : Char) : sameLetter c c = true := by simp [sameLetter]

/-! ## The lower case of a text

The lower case of a character depends on what stands around it for one letter only, the capital
sigma.  A text without it is put into lower case one character after the other, whatever follows. -/

section Lower

variable {before v w : List Char}

/-- The lower case of a text without a capital sigma does not depend on what follows the text. -/
theorem lowerAfter_append (hv : '\u03a3' ∉ v) :
    lowerAfter before (v ++ w) = lowerAfter before v ++ lowerAfter (v.reverse ++ before) w := by
  induction v generalizing before with
  | nil => rfl
  | cons c v ih =>
    obtain ⟨hc, hv⟩ := not_or.mp (mt List.mem_cons.mpr hv)
    have hletter : ∀ after, lowerBetween before c after = lowerBetween before c [] := by
      intro after
      have hsigma : (c == '\u03a3') = false := beq_eq_false_iff_ne.mpr (Ne.symm hc)
      simp only [lowerBetween, hsigma, Bool.false_eq_true, if_false]
    rw [List.cons_append, lowerAfter, lowerAfter, ih hv, hletter, hletter v]
    simp

theorem lowerBetween_ne_nil (c : Char) (after : List Char) : lowerBetween before c after ≠ [] := by
  unfold lowerBetween
  split
  · exact List.cons_ne_nil _ _
  · split <;> exact List.cons_ne_nil _ _

theorem lowerAfter_ne_nil (hw : w ≠ []) : lowerAfter before w ≠ [] := by
  obtain ⟨c, w, rfl⟩ := List.exists_cons_of_ne_nil hw
  rw [lowerAfter]
  exact List.append_ne_nil_of_left_ne_nil (lowerBetween_ne_nil c w) _

/-- The capital sigma becomes another letter outside ASCII. -/
theorem sigma_notMem_of_lower (h : ∀ c ∈ lowerAfter before w, c.toNat < 128) : '\u03a3' ∉ w := by
  induction w generalizing before with
  | nil => exact List.not_mem_nil
  | cons c w ih =>
    rw [lowerAfter] at h
    intro hmem
    rcases List.mem_cons.mp hmem with rfl | hmem
    · have hsigma : ∃ x, lowerBetween before '\u03a3' w = [x] ∧ ¬ x.toNat < 128 := by
        unfold lowerBetween
        rw [if_neg (by decide), if_pos (by decide)]
        refine ⟨_, rfl, ?_⟩
        split <;> decide
      obtain ⟨x, hx, hbig⟩ := hsigma
      exact hbig (h x (List.mem_append_left _ (by rw [hx]; exact List.mem_singleton_self x)))
    · exact ih (fun x hx => h x (List.mem_append_right _ hx)) hmem

end Lower

end PlanAudit.Text
