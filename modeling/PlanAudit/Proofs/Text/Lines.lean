import Mathlib.Data.List.Basic
import PlanAudit.Text.Utf8

/-!
# The lines of a text file

A line feed ends a line wherever it stands, so that a file can be read in the parts in which it was
written if each of them ended in one.  Other characters end lines as well.

## Main results

* `splitLines_append_lineFeed`: the lines of a file that is written in parts
* `splitLines_unbroken`: a part without breaks is one line
* `exists_of_mem_splitLines`: a line stands between breaks or the ends of the text
* `splitLines_unifyLineEnds`: unifying line ends changes no line
-/

namespace PlanAudit.Text

/-- No character of the text ends a line. -/
def Unbroken (text : List Char) : Prop := ∀ c ∈ text, isLineBreak c = false

instance (text : List Char) : Decidable (Unbroken text) :=
  List.decidableBAll _ text

/-! ## One character -/

theorem splitLinesFrom_cons (line : List Char) {c : Char} {rest : List Char}
    (h : c = '\r' → rest.head? ≠ some '\n') :
    splitLinesFrom line (c :: rest) =
      if isLineBreak c then line.reverse :: splitLines rest else splitLinesFrom (c :: line) rest :=
  -- Only a carriage return before a line feed is not a line end by itself.
  splitLinesFrom.eq_3 line c rest fun _ hc hrest => h hc (hrest ▸ rfl)

theorem head?_append_of_cases {c : Char} {text rest : List Char}
    (h : ∀ after, c = '\r' → text = '\n' :: after → False) (htext : text ≠ []) :
    c = '\r' → (text ++ rest).head? ≠ some '\n' := by
  obtain ⟨x, text, rfl⟩ := List.exists_cons_of_ne_nil htext
  intro hc hx
  exact h text hc (by rw [← Option.some.inj hx])

/-! ## Parts of a file -/

theorem splitLinesFrom_append_lineFeed (line text rest : List Char) :
    splitLinesFrom line (text ++ '\n' :: rest) =
      splitLinesFrom line (text ++ ['\n']) ++ splitLines rest := by
  fun_induction splitLinesFrom line text with
  | case1 | case2 => rfl
  | case3 line text ih => exact congrArg (line.reverse :: ·) ih
  | case4 line c text hnot hbreak ih =>
    -- A carriage return at the end of the text ends its line together with the line feed.
    by_cases hend : c = '\r' ∧ text = []
    · obtain ⟨rfl, rfl⟩ := hend
      rfl
    · have hlast : ∀ after, c = '\r' → (text ++ '\n' :: after).head? ≠ some '\n' :=
        fun after hc => head?_append_of_cases hnot (fun htext => hend ⟨hc, htext⟩) hc
      rw [List.cons_append, List.cons_append, splitLinesFrom_cons line (hlast rest),
        splitLinesFrom_cons line (hlast []), if_pos hbreak, if_pos hbreak]
      exact congrArg (line.reverse :: ·) ih
  | case5 line c text hnot hbreak ih =>
    have hc : c ≠ '\r' := by
      rintro rfl
      exact hbreak rfl
    rw [List.cons_append, List.cons_append, splitLinesFrom_cons line fun h => absurd h hc,
      splitLinesFrom_cons line fun h => absurd h hc, if_neg hbreak, if_neg hbreak]
    exact ih

/-- The lines of a text whose first part ends in a line feed are those of its parts. -/
theorem splitLines_append_lineFeed (text rest : List Char) :
    splitLines (text ++ '\n' :: rest) = splitLines (text ++ ['\n']) ++ splitLines rest :=
  splitLinesFrom_append_lineFeed [] text rest

/-! ## One line -/

theorem splitLinesFrom_unbroken {text : List Char} (h : Unbroken text) (line rest : List Char) :
    splitLinesFrom line (text ++ rest) = splitLinesFrom (text.reverse ++ line) rest := by
  induction text generalizing line with
  | nil => rfl
  | cons c text ih =>
    have hc := h c List.mem_cons_self
    have hreturn : c ≠ '\r' := by
      rintro rfl
      cases hc
    rw [List.cons_append, splitLinesFrom_cons line fun h => absurd h hreturn, hc,
      if_neg Bool.false_ne_true, ih fun x hx => h x (List.mem_cons_of_mem c hx)]
    simp

theorem splitLines_unbroken {text : List Char} (h : Unbroken text) :
    splitLines (text ++ ['\n']) = [text] := by
  rw [splitLines, splitLinesFrom_unbroken h, List.append_nil]
  change [text.reverse.reverse] = [text]
  rw [List.reverse_reverse]

/-! ## Lines between breaks -/

/-- Nothing stands before a line, or the end of another. -/
def LineStart (before : List Char) : Prop :=
  ∀ c ∈ before.getLast?, isLineBreak c = true

/-- Nothing stands behind a line, or its end. -/
def LineEnd (after : List Char) : Prop :=
  ∀ c ∈ after.head?, isLineBreak c = true

theorem LineStart.append_cons {before : List Char} (h : LineStart before) {c : Char}
    (hc : isLineBreak c = true) (first : List Char) : LineStart (first ++ c :: before) := by
  intro x hx
  rw [List.getLast?_append_of_ne_nil _ (List.cons_ne_nil c before)] at hx
  cases before with
  | nil => exact Option.some.inj hx ▸ hc
  | cons y before => exact h x (by rwa [List.getLast?_cons_cons] at hx)

theorem exists_of_mem_splitLinesFrom (line : List Char) {text found : List Char}
    (hline : Unbroken line) (h : found ∈ splitLinesFrom line text) :
    ∃ before after, line.reverse ++ text = before ++ (found ++ after) ∧ Unbroken found ∧
      LineStart before ∧ LineEnd after := by
  have hfirst : Unbroken line.reverse := fun c hc => hline c (List.mem_reverse.mp hc)
  have hstart : LineStart [] := fun _ hc => absurd hc (by simp)
  -- The line in hand is either the one that is found, or it ends and stands before that one.
  fun_induction splitLinesFrom line text with
  | case1 => cases h
  | case2 line _ =>
    obtain rfl := List.mem_singleton.mp h
    exact ⟨[], [], by simp, hfirst, hstart, fun _ hc => absurd hc (by simp)⟩
  | case3 line text ih =>
    rcases List.mem_cons.mp h with rfl | hrest
    · exact ⟨[], _, rfl, hfirst, hstart, fun c hc => Option.some.inj hc ▸ rfl⟩
    · obtain ⟨before, after, heq, hfound, hbefore, hafter⟩ :=
        ih (fun _ hc => absurd hc List.not_mem_nil) hrest (fun _ hc => absurd hc List.not_mem_nil)
      refine ⟨line.reverse ++ ['\r'] ++ '\n' :: before, after, ?_, hfound,
        hbefore.append_cons rfl _, hafter⟩
      simpa using heq
  | case4 line c text hnot hbreak ih =>
    rcases List.mem_cons.mp h with rfl | hrest
    · exact ⟨[], _, rfl, hfirst, hstart, fun x hx => Option.some.inj hx ▸ hbreak⟩
    · obtain ⟨before, after, heq, hfound, hbefore, hafter⟩ :=
        ih (fun _ hc => absurd hc List.not_mem_nil) hrest (fun _ hc => absurd hc List.not_mem_nil)
      refine ⟨line.reverse ++ c :: before, after, ?_, hfound, hbefore.append_cons hbreak _, hafter⟩
      simpa using heq
  | case5 line c text hnot hbreak ih =>
    have hnext : Unbroken (c :: line) := by
      intro x hx
      rcases List.mem_cons.mp hx with rfl | hx
      · exact Bool.eq_false_iff.mpr hbreak
      · exact hline x hx
    obtain ⟨before, after, heq, hfound, hbefore, hafter⟩ :=
      ih hnext h fun x hx => hnext x (List.mem_reverse.mp hx)
    exact ⟨before, after, by simpa using heq, hfound, hbefore, hafter⟩

/-- A line stands between the ends of the text or characters that end lines, and has none in it. -/
theorem exists_of_mem_splitLines {text found : List Char} (h : found ∈ splitLines text) :
    ∃ before after, text = before ++ (found ++ after) ∧ Unbroken found ∧
      LineStart before ∧ LineEnd after :=
  exists_of_mem_splitLinesFrom [] (fun _ hc => absurd hc List.not_mem_nil) h

/-! ## Unified line ends -/

theorem splitLines_unifyLineEnds (text : List Char) :
    splitLines (unifyLineEnds text) = splitLines text := by
  suffices h : ∀ line, splitLinesFrom line (unifyLineEnds text) = splitLinesFrom line text from h []
  -- A line feed takes the place of a line end of another kind, and both end the line.
  fun_induction unifyLineEnds text with
  | case1 rest ih => exact fun line => congrArg (line.reverse :: ·) (ih [])
  | case2 rest hnot ih =>
    intro line
    have hhead : rest.head? ≠ some '\n' := by
      cases rest with
      | nil => simp
      | cons x rest =>
        intro hx
        exact hnot rest (by rw [← Option.some.inj hx])
    rw [splitLinesFrom_cons line (c := '\n') fun h => absurd h (by decide),
      splitLinesFrom_cons line fun _ => hhead]
    exact congrArg (line.reverse :: ·) (ih [])
  | case3 c rest hnot hreturn ih =>
    intro line
    rw [splitLinesFrom_cons line fun h => absurd h hreturn,
      splitLinesFrom_cons line fun h => absurd h hreturn, ih, splitLines, splitLines, ih]
  | case4 => exact fun _ => rfl

end PlanAudit.Text
