import Mathlib.Data.List.Basic
import PlanAudit.Proofs.Text.ObjectKeys
import PlanAudit.Text.Brackets

/-!
# Parts between commas outside brackets

A text is split at the commas that stand outside brackets.  A piece that closes the brackets which
it opens, and in which no comma stands outside them, stays in one part.

## Main definitions

* `Passed depth w`: with `depth` brackets open the text `w` stays in one part
* `withoutLastComma`: a text without a comma at its end
* `PartList`: texts that are the parts of what they are joined to

## Main results

* `passed_of_uncut`: a text that closes as many brackets as it opens and has no comma outside them
* `passed_of_free`, `Passed.append`, `Passed.wrap`: texts without brackets, one text after the
  other, and a text in brackets
* `splitTopLevel_intercalate`: such texts with commas between them are the parts
* `intercalate_splitTopLevelFrom`: the parts joined again are what was split
* `split_join_inverse`: splitting and joining are inverse to each other
-/

namespace PlanAudit.Text

/-- With `depth` brackets open, the text closes the brackets that it opens and no others, and it is
not split at a comma. -/
def Passed (depth : Int) (w : List Char) : Prop :=
  ∀ part t, splitTopLevelFrom [','] depth part (w ++ t) =
    splitTopLevelFrom [','] depth (w.reverse ++ part) t

section Passed

variable {depth : Int} {v w : List Char}

theorem splitTopLevelFrom_cons {c : Char} (h : c = ',' → depth + bracketStep c ≠ 0)
    (part t : List Char) : splitTopLevelFrom [','] depth part (c :: t) =
      splitTopLevelFrom [','] (depth + bracketStep c) (c :: part) t := by
  rw [splitTopLevelFrom]
  exact if_neg fun ⟨hsep, hzero⟩ => h (List.cons.inj hsep).1 hzero

/-- What has no comma at depth zero stays in one part, and its brackets are counted. -/
theorem splitTopLevelFrom_of_uncut
    (h : ∀ u v, w = u ++ ',' :: v → depth + bracketDepth u ≠ 0) (part t : List Char) :
    splitTopLevelFrom [','] depth part (w ++ t) =
      splitTopLevelFrom [','] (depth + bracketDepth w) (w.reverse ++ part) t := by
  induction w generalizing depth part with
  | nil => simp
  | cons c w ih =>
    have hfirst : c = ',' → depth + bracketStep c ≠ 0 := by
      rintro rfl
      exact h [] w rfl
    have hrest : ∀ u v, w = u ++ ',' :: v → depth + bracketStep c + bracketDepth u ≠ 0 := by
      rintro u v rfl
      rw [Int.add_assoc]
      exact h (c :: u) v rfl
    rw [List.cons_append, splitTopLevelFrom_cons hfirst, ih hrest, bracketDepth_cons,
      Int.add_assoc]
    simp

/-- A text that closes as many brackets as it opens, and has no comma where no bracket is open. -/
theorem passed_of_uncut (h : ∀ u v, w = u ++ ',' :: v → depth + bracketDepth u ≠ 0)
    (hclosed : bracketDepth w = 0) : Passed depth w := by
  intro part t
  rw [splitTopLevelFrom_of_uncut h, hclosed, Int.add_zero]

/-- A text without brackets, and outside of brackets without commas. -/
theorem passed_of_free (hw : ∀ c ∈ w, isOpener c = false ∧ isCloser c = false)
    (hcomma : depth = 0 → ',' ∉ w) : Passed depth w := by
  have hfree : ∀ c ∈ w, bracketStep c = 0 := fun c hc => bracketStep_eq_zero (hw c hc)
  refine passed_of_uncut (fun u v hsplit hzero => ?_) (bracketDepth_eq_zero hfree)
  have hfront : bracketDepth u = 0 :=
    bracketDepth_eq_zero fun c hc => hfree c (by simp [hsplit, hc])
  rw [hfront, Int.add_zero] at hzero
  exact hcomma hzero (by simp [hsplit])

theorem Passed.append (hv : Passed depth v) (hw : Passed depth w) : Passed depth (v ++ w) := by
  intro part t
  rw [List.append_assoc, hv, hw, List.reverse_append, List.append_assoc]

/-- A text in parentheses. -/
theorem Passed.wrap (hw : Passed (depth + 1) w) : Passed depth ('(' :: (w ++ [')'])) := by
  intro part t
  have hopen : bracketStep '(' = 1 := rfl
  have hclose : bracketStep ')' = -1 := rfl
  -- Between the parentheses the depth is one more, and behind them it is what it was.
  rw [List.cons_append, splitTopLevelFrom_cons (fun h => absurd h (by decide)), hopen,
    List.append_assoc, hw, List.singleton_append,
    splitTopLevelFrom_cons (fun h => absurd h (by decide)), hclose, Int.add_neg_cancel_right]
  simp

/-- What closes its brackets and has no comma outside them has none where no bracket is open. -/
theorem uncut_of_closesBrackets {level : Nat} (h : closesBrackets level w = true) :
    (∀ u v, w = u ++ ',' :: v → (level : Int) + bracketDepth u ≠ 0) ∧
      (level : Int) + bracketDepth w = 0 := by
  induction w generalizing level with
  | nil =>
    obtain rfl : level = 0 := by simpa [closesBrackets] using h
    exact ⟨fun u v hsplit => absurd hsplit (by simp), rfl⟩
  | cons c w ih =>
    obtain ⟨hfree, level', hlevel, hrest⟩ := closesBrackets_cons h
    obtain ⟨huncut, hclosed⟩ := ih hrest
    refine ⟨fun u v hsplit => ?_, by rw [add_bracketDepth_cons hlevel, hclosed]⟩
    cases u with
    | nil =>
      obtain ⟨rfl, -⟩ := List.cons.inj hsplit
      rw [bracketDepth_nil, Int.add_zero]
      exact fun hzero => hfree (Int.ofNat_eq_zero.mp hzero) rfl
    | cons x u =>
      obtain ⟨rfl, hbehind⟩ := List.cons.inj hsplit
      rw [add_bracketDepth_cons hlevel]
      exact huncut u v hbehind

theorem passed_of_closesBrackets (h : closesBrackets 0 w = true) : Passed 0 w := by
  obtain ⟨huncut, hclosed⟩ := uncut_of_closesBrackets h
  exact passed_of_uncut huncut (by rwa [Int.natCast_zero, Int.zero_add] at hclosed)

theorem passed_intercalate {parts : List (List Char)} (hdepth : depth ≠ 0)
    (h : ∀ p ∈ parts, Passed depth p) : Passed depth ([','].intercalate parts) := by
  have hcomma : Passed depth [','] := passed_of_free (by decide) (absurd · hdepth)
  induction parts with
  | nil => exact fun _ _ => rfl
  | cons p parts ih =>
    obtain ⟨hp, hparts⟩ := List.forall_mem_cons.mp h
    cases parts with
    | nil => simpa [List.intercalate] using hp
    | cons q parts =>
      rw [List.intercalate_cons_cons]
      exact (hp.append hcomma).append (ih hparts)

end Passed

theorem splitTopLevelFrom_intercalate {parts : List (List Char)} {first : List Char}
    (hfirst : Passed 0 first) (hparts : ∀ p ∈ parts, Passed 0 p)
    (hlast : ∀ p ∈ (first :: parts).getLast?, p ≠ []) :
    splitTopLevelFrom [','] 0 [] ([','].intercalate (first :: parts)) = first :: parts := by
  induction parts generalizing first with
  | nil =>
    have hsole := hfirst [] []
    have hne : first ≠ [] := hlast first rfl
    rw [List.append_nil, List.append_nil] at hsole
    have hone : [','].intercalate [first] = first := by simp [List.intercalate]
    rw [hone, hsole, splitTopLevelFrom]
    simp [hne]
  | cons p parts ih =>
    obtain ⟨hp, hparts⟩ := List.forall_mem_cons.mp hparts
    rw [List.intercalate_cons_cons, List.append_assoc, hfirst, List.append_nil,
      List.singleton_append, splitTopLevelFrom]
    -- No bracket is open at the comma, so that the first part ends in front of it.
    have hsep : [','] = [','] ∧ (0 : Int) + bracketStep ',' = 0 := by decide
    rw [List.getLast?_cons_cons] at hlast
    rw [if_pos hsep, hsep.2, ih hp hparts hlast, List.reverse_reverse]

/-- The last of the texts alone must not be empty, since a part that would be last and empty is left
out. -/
theorem splitTopLevel_intercalate_of_last {parts : List (List Char)}
    (hparts : ∀ p ∈ parts, Passed 0 p) (hlast : ∀ p ∈ parts.getLast?, p ≠ []) :
    splitTopLevel ([','].intercalate parts) [','] = parts := by
  cases parts with
  | nil => rfl
  | cons p parts =>
    obtain ⟨hp, hparts⟩ := List.forall_mem_cons.mp hparts
    exact splitTopLevelFrom_intercalate hp hparts hlast

/-- **The parts of texts with commas between them** are these texts, if they are not empty. -/
theorem splitTopLevel_intercalate {parts : List (List Char)} (hparts : ∀ p ∈ parts, Passed 0 p)
    (hne : ∀ p ∈ parts, p ≠ []) : splitTopLevel ([','].intercalate parts) [','] = parts :=
  splitTopLevel_intercalate_of_last hparts fun p hp => hne p (List.mem_of_getLast? hp)

/-! ## Splitting and joining -/

/-- A text is split into no parts only if it is empty. -/
theorem splitTopLevelFrom_ne_nil (depth : Int) (part : List Char) {t : List Char}
    (h : part ≠ [] ∨ t ≠ []) : splitTopLevelFrom [','] depth part t ≠ [] := by
  induction t generalizing depth part with
  | nil =>
    have hpart : part ≠ [] := h.resolve_right (absurd rfl ·)
    simp [splitTopLevelFrom, hpart]
  | cons c t ih =>
    rw [splitTopLevelFrom]
    split
    · exact List.cons_ne_nil _ _
    · exact ih _ _ (.inl (List.cons_ne_nil c part))

/-- The text without a comma at its end that stands outside the `depth` brackets open in front of
the text and outside its own. -/
def withoutLastComma (depth : Int) (text : List Char) : List Char :=
  if text.getLast? = some ',' ∧ depth + bracketDepth text.dropLast = 0 then text.dropLast else text

theorem withoutLastComma_singleton (depth : Int) (c : Char) :
    withoutLastComma depth [c] = if c = ',' ∧ depth = 0 then [] else [c] := by
  simp [withoutLastComma]

theorem withoutLastComma_cons (depth : Int) (c : Char) {t : List Char} (ht : t ≠ []) :
    withoutLastComma depth (c :: t) = c :: withoutLastComma (depth + bracketStep c) t := by
  obtain ⟨d, t, rfl⟩ := List.exists_cons_of_ne_nil ht
  rw [withoutLastComma, withoutLastComma, List.getLast?_cons_cons, List.dropLast_cons_cons,
    bracketDepth_cons, Int.add_assoc]
  split <;> rfl

/-- **Joined again, the parts are what was split**, but for a comma at its end. -/
theorem intercalate_splitTopLevelFrom (depth : Int) (part t : List Char) :
    [','].intercalate (splitTopLevelFrom [','] depth part t) =
      part.reverse ++ withoutLastComma depth t := by
  -- Induction on the text; a comma is lost only if no text and hence no part follows it.
  induction t generalizing depth part with
  | nil => cases part <;> simp [splitTopLevelFrom, withoutLastComma, List.intercalate]
  | cons c t ih =>
    rw [splitTopLevelFrom]
    split
    · rename_i hcut
      obtain ⟨hsep, hdepth⟩ := hcut
      obtain rfl : c = ',' := (List.cons.inj hsep).1
      have hzero : depth = 0 := by simpa [bracketStep, isOpener, isCloser] using hdepth
      rcases eq_or_ne t [] with rfl | ht
      · simp [splitTopLevelFrom, withoutLastComma_singleton, hzero, List.intercalate]
      · have hrest := ih (depth + bracketStep ',') []
        obtain ⟨p, parts, hparts⟩ := List.exists_cons_of_ne_nil
          (splitTopLevelFrom_ne_nil (depth + bracketStep ',') [] (.inr ht))
        rw [hparts] at hrest ⊢
        rw [List.intercalate_cons_cons, hrest, withoutLastComma_cons depth ',' ht]
        simp
    · rename_i huncut
      rw [ih, List.reverse_cons, List.append_assoc, List.singleton_append]
      rcases eq_or_ne t [] with rfl | ht
      · have hkept : ¬(c = ',' ∧ depth = 0) := by
          rintro ⟨rfl, rfl⟩
          exact huncut ⟨rfl, rfl⟩
        rw [withoutLastComma_singleton, if_neg hkept]
        rfl
      · rw [withoutLastComma_cons depth c ht]

/-- Texts that are the parts of what they are joined to. -/
structure PartList where
  /-- The parts. -/
  parts : List (List Char)
  /-- Each closes as many brackets as it opens. -/
  closed : ∀ p ∈ parts, bracketDepth p = 0
  /-- No comma stands outside the brackets of a part. -/
  uncut : ∀ p ∈ parts, ∀ u v, p = u ++ ',' :: v → bracketDepth u ≠ 0
  /-- The last part is not empty. -/
  last_ne_nil : ∀ p ∈ parts.getLast?, p ≠ []

theorem PartList.passed (l : PartList) : ∀ p ∈ l.parts, Passed 0 p := by
  refine fun p hp => passed_of_uncut (fun u v hsplit => ?_) (l.closed p hp)
  rw [Int.zero_add]
  exact l.uncut p hp u v hsplit

/-- **Splitting and joining are inverse to each other.**  The parts of a text, joined with commas,
are the text, of which a comma at the end is dropped if it stands outside brackets; and texts that
close their brackets, have no comma outside them and do not end in an empty text are the parts of
what they are joined to.  On neither side need an opening bracket stand in front of the one that
closes it. -/
theorem split_join_inverse :
    (∀ text : List Char, [','].intercalate (splitTopLevel text [',']) =
      if text.getLast? = some ',' ∧ bracketDepth text.dropLast = 0 then text.dropLast else text) ∧
    ∀ l : PartList, splitTopLevel ([','].intercalate l.parts) [','] = l.parts := by
  refine ⟨fun text => ?_, fun l => splitTopLevel_intercalate_of_last l.passed l.last_ne_nil⟩
  rw [splitTopLevel, intercalate_splitTopLevelFrom, List.reverse_nil, List.nil_append,
    withoutLastComma, Int.zero_add]

example : splitTopLevel "a,,f(b, c),".toList [','] = ["a".toList, [], "f(b, c)".toList] := by
  decide

end PlanAudit.Text
