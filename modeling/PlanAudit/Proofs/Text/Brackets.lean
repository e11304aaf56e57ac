import Mathlib.Data.List.Basic
import Mathlib.Order.Bounds.Basic
import PlanAudit.Proofs.Text.Words
import PlanAudit.Text.Brackets

/-!
# Closing brackets

A piece of text in which no bracket is closed that was not opened in it leaves a number of brackets
open; the bracket that closes a slice is never inside such a piece.  Said without a count of open
brackets, the slice ends at the first position at which the closing brackets of the kind outnumber
the opening ones; if there is no such position, the bracket is not closed.

## Main definitions

* `depthAfter b d w`: the number of brackets open behind `w`, if `w` closes none of the `d` outside
* `Balanced b w`: the text `w` closes the brackets that it opens and none besides
* `Matched b w`: the text `w` has as many opening as closing brackets, and nowhere more of the
  closing ones in front
* `ClosesAt`: a position at which the closing brackets outnumber the opening ones

## Main results

* `closerIndex_append`: the closing bracket is looked for behind such a piece
* `balanced_of_depthAfter`: a text that leaves no bracket open is balanced
* `balancedSlice?_of_balanced`: the slice in front of the bracket behind a balanced text
* `depthAfter_eq_some_iff`: the brackets that are left open are those that are counted
* `balancedSlice_cases`: the slice ends at the first position at which closing brackets are more
-/

namespace PlanAudit.Text

variable {b : Bracket}

theorem Bracket.closer_ne_opener (b : Bracket) : b.closer ≠ b.opener := by
  cases b <;> decide

/-- The number of brackets open behind the text with `depth` open in front of it; none if the text
closes a bracket that stands outside of these. -/
def depthAfter (b : Bracket) : Nat → List Char → Option Nat
  | depth, [] => some depth
  | depth, c :: rest =>
    if c = b.opener then depthAfter b (depth + 1) rest
    else if c = b.closer then
      match depth with
      | 0 => none
      | depth + 1 => depthAfter b depth rest
    else depthAfter b depth rest

theorem depthAfter_append (depth : Nat) (v w : List Char) :
    depthAfter b depth (v ++ w) = (depthAfter b depth v).bind fun d => depthAfter b d w := by
  induction v generalizing depth with
  | nil => rfl
  | cons c v ih =>
    rw [List.cons_append, depthAfter.eq_def, depthAfter.eq_def b depth (c :: v)]
    dsimp only
    split
    · exact ih _
    · split
      · cases depth with
        | zero => rfl
        | succ depth => exact ih depth
      · exact ih depth

/-- A text without brackets leaves them as they are. -/
theorem depthAfter_of_free {w : List Char} (hw : ∀ c ∈ w, c ≠ b.opener ∧ c ≠ b.closer)
    (depth : Nat) : depthAfter b depth w = some depth := by
  induction w with
  | nil => rfl
  | cons c w ih =>
    obtain ⟨⟨hopen, hclose⟩, hw⟩ := List.forall_mem_cons.mp hw
    rw [depthAfter.eq_def]
    dsimp only
    rw [if_neg hopen, if_neg hclose, ih hw]

/-- What the pieces of two texts do alike, the texts do alike. -/
theorem depthAfter_flatMap_congr {α : Type} {f g : α → List Char} {xs : List α}
    (h : ∀ x ∈ xs, ∀ depth, depthAfter b depth (f x) = depthAfter b depth (g x)) (depth : Nat) :
    depthAfter b depth (xs.flatMap f) = depthAfter b depth (xs.flatMap g) := by
  induction xs generalizing depth with
  | nil => rfl
  | cons x xs ih =>
    obtain ⟨hx, hxs⟩ := List.forall_mem_cons.mp h
    rw [List.flatMap_cons, List.flatMap_cons, depthAfter_append, depthAfter_append, hx]
    exact Option.bind_congr fun d _ => ih hxs d

/-- **The closing bracket is looked for behind a piece that closes none outside of it.** -/
theorem closerIndex_append {depth depth' : Nat} {w : List Char}
    (h : depthAfter b depth w = some depth') (t : List Char) :
    closerIndex b depth (w ++ t) = (closerIndex b depth' t).map (· + w.length) := by
  induction w generalizing depth with
  | nil =>
    obtain rfl : depth = depth' := Option.some.inj h
    simp
  | cons c w ih =>
    have hstep {d : Nat} (hd : depthAfter b d w = some depth') :
        (closerIndex b d (w ++ t)).map (· + 1) =
          (closerIndex b depth' t).map (· + (c :: w).length) := by
      rw [ih hd, Option.map_map]
      rfl
    rw [depthAfter.eq_def] at h
    rw [List.cons_append, closerIndex.eq_def]
    dsimp only at h ⊢
    split at h
    · rename_i hopen
      rw [if_pos hopen]
      exact hstep h
    · rename_i hopen
      rw [if_neg hopen]
      split at h
      · rename_i hclose
        rw [if_pos hclose]
        cases depth with
        | zero => cases h
        | succ depth => exact hstep h
      · rename_i hclose
        rw [if_neg hclose]
        exact hstep h

/-! ## Balanced texts -/

/-- The text closes the brackets that it opens and none besides. -/
def Balanced (b : Bracket) (w : List Char) : Prop := ∀ depth, depthAfter b depth w = some depth

theorem Balanced.append {v w : List Char} (hv : Balanced b v) (hw : Balanced b w) :
    Balanced b (v ++ w) := by
  intro depth
  rw [depthAfter_append, hv, Option.bind_some, hw]

theorem balanced_of_free {w : List Char} (hw : ∀ c ∈ w, c ≠ b.opener ∧ c ≠ b.closer) :
    Balanced b w :=
  fun depth => depthAfter_of_free hw depth

theorem balanced_flatMap {α : Type} {f : α → List Char} {xs : List α}
    (h : ∀ x ∈ xs, Balanced b (f x)) : Balanced b (xs.flatMap f) := by
  induction xs with
  | nil => exact fun _ => rfl
  | cons x xs ih =>
    obtain ⟨hx, hxs⟩ := List.forall_mem_cons.mp h
    exact hx.append (ih hxs)

/-- Further brackets that are open in front of a text stay open behind it. -/
theorem depthAfter_add {depth depth' : Nat} {w : List Char}
    (h : depthAfter b depth w = some depth') (more : Nat) :
    depthAfter b (depth + more) w = some (depth' + more) := by
  induction w generalizing depth with
  | nil =>
    obtain rfl : depth = depth' := Option.some.inj h
    rfl
  | cons c w ih =>
    rw [depthAfter.eq_def] at h ⊢
    dsimp only at h ⊢
    split at h
    · rename_i hopen
      rw [if_pos hopen, Nat.add_right_comm]
      exact ih h
    · rename_i hopen
      rw [if_neg hopen]
      split at h
      · rename_i hclose
        rw [if_pos hclose]
        cases depth with
        | zero => cases h
        | succ depth =>
          rw [Nat.add_right_comm]
          exact ih h
      · rename_i hclose
        rw [if_neg hclose]
        exact ih h

/-- A text is balanced if it is where no bracket is open in front of it. -/
theorem balanced_of_depthAfter {w : List Char} (h : depthAfter b 0 w = some 0) : Balanced b w := by
  intro depth
  have hmore := depthAfter_add h depth
  rwa [Nat.zero_add] at hmore

theorem balanced_intercalate {sep : List Char} {parts : List (List Char)} (hsep : Balanced b sep)
    (h : ∀ w ∈ parts, Balanced b w) : Balanced b (sep.intercalate parts) := by
  induction parts with
  | nil => exact fun _ => rfl
  | cons w parts ih =>
    obtain ⟨hw, hparts⟩ := List.forall_mem_cons.mp h
    cases parts with
    | nil => simpa [List.intercalate] using hw
    | cons v parts =>
      rw [List.intercalate_cons_cons]
      exact (hw.append hsep).append (ih hparts)

/-- A balanced text between brackets is balanced. -/
theorem Balanced.wrap {w : List Char} (hw : Balanced b w) :
    Balanced b (b.opener :: (w ++ [b.closer])) := by
  intro depth
  rw [depthAfter.eq_def]
  dsimp only
  rw [if_pos rfl, depthAfter_append, hw, Option.bind_some, depthAfter.eq_def]
  dsimp only
  rw [if_neg b.closer_ne_opener, if_pos rfl]
  rfl

/-- **The slice in front of the bracket behind a balanced text** is that text. -/
theorem balancedSlice?_of_balanced {w : List Char} (hw : Balanced b w) (u t : List Char) :
    balancedSlice? (u ++ (w ++ b.closer :: t)) u.length b =
      some ⟨w, u.length + w.length + 1⟩ := by
  have hcloser : closerIndex b 0 (w ++ b.closer :: t) = some w.length := by
    rw [closerIndex_append (hw 0), closerIndex.eq_def]
    dsimp only
    rw [if_neg b.closer_ne_opener, if_pos rfl]
    simp
  rw [balancedSlice?, List.drop_left, hcloser]
  simp

/-- Behind a piece that closes no bracket outside of it the slice takes in some of what follows. -/
theorem exists_body_balancedSlice {depth : Nat} {w : List Char}
    (h : depthAfter b 0 w = some depth) (u t : List Char) :
    ∃ v, v <+: t ∧ (balancedSlice (u ++ (w ++ t)) u.length b).body = w ++ v := by
  have hcloser := closerIndex_append h t
  rw [balancedSlice, balancedSlice?, List.drop_left, hcloser]
  cases closerIndex b depth t with
  | none => exact ⟨t, List.prefix_refl t, rfl⟩
  | some n =>
    refine ⟨t.take n, List.take_prefix n t, ?_⟩
    have htake : (w ++ t).take (w.length + n) = w ++ t.take n := List.take_length_add_append n
    simpa [Nat.add_comm] using htake

/-! ## Counted brackets -/

/-- The text has as many opening as closing brackets of the kind, and no part in front has more
closing ones. -/
structure Matched (b : Bracket) (w : List Char) : Prop where
  even : w.count b.opener = w.count b.closer
  nonneg : ∀ u, u <+: w → u.count b.closer ≤ u.count b.opener

/-- A text with matched brackets of the kind. -/
structure MatchedText (b : Bracket) where
  /-- The characters. -/
  chars : List Char
  /-- Their brackets are matched. -/
  matched : Matched b chars

/-- Of the brackets between `start` and the position, which counts too, more are closing than
opening. -/
def ClosesAt (b : Bracket) (text : List Char) (start i : Nat) : Prop :=
  start ≤ i ∧ i < text.length ∧
    (slice text start (i + 1)).count b.opener < (slice text start (i + 1)).count b.closer

theorem forall_prefix_cons {P : List Char → Prop} {c : Char} {w : List Char} :
    (∀ u, u <+: c :: w → P u) ↔ P [] ∧ ∀ u, u <+: w → P (c :: u) := by
  constructor
  · intro h
    exact ⟨h [] List.nil_prefix, fun u hu => h (c :: u) (List.cons_prefix_cons.mpr ⟨rfl, hu⟩)⟩
  · rintro ⟨hnil, hcons⟩ u hu
    rcases List.prefix_cons_iff.mp hu with rfl | ⟨v, rfl, hv⟩
    · exact hnil
    · exact hcons v hv

/-- **The brackets that a text leaves open are those that are counted**: it closes none outside of
it exactly if no part in front has too many closing ones. -/
theorem depthAfter_eq_some_iff {depth depth' : Nat} {w : List Char} :
    depthAfter b depth w = some depth' ↔
      (∀ u, u <+: w → u.count b.closer ≤ depth + u.count b.opener) ∧
        depth + w.count b.opener = depth' + w.count b.closer := by
  induction w generalizing depth with
  | nil => simp [depthAfter]
  | cons c w ih =>
    rw [forall_prefix_cons, depthAfter.eq_def]
    dsimp only
    split
    · rename_i hopen
      subst hopen
      simp only [ih, List.count_nil, Nat.zero_le, true_and, List.count_cons_self,
        List.count_cons_of_ne b.closer_ne_opener.symm]
      refine and_congr (forall₂_congr fun u _ => ?_) ?_ <;> omega
    · rename_i hopen
      split
      · rename_i hclose
        subst hclose
        cases depth with
        | zero =>
          refine iff_of_false nofun ?_
          rintro ⟨⟨-, hnone⟩, -⟩
          have hone := hnone [] List.nil_prefix
          simp [b.closer_ne_opener] at hone
        | succ depth =>
          simp only [ih, List.count_nil, Nat.zero_le, true_and, List.count_cons_self,
            List.count_cons_of_ne b.closer_ne_opener]
          refine and_congr (forall₂_congr fun u _ => ?_) ?_ <;> omega
      · rename_i hclose
        simp only [ih, List.count_nil, Nat.zero_le, true_and, List.count_cons_of_ne hopen,
          List.count_cons_of_ne hclose]

theorem depthAfter_eq_zero_iff {w : List Char} : depthAfter b 0 w = some 0 ↔ Matched b w := by
  rw [depthAfter_eq_some_iff]
  simp only [Nat.zero_add]
  exact ⟨fun ⟨hnonneg, heven⟩ => ⟨heven, hnonneg⟩, fun h => ⟨h.nonneg, h.even⟩⟩

theorem Matched.balanced {w : List Char} (h : Matched b w) : Balanced b w :=
  balanced_of_depthAfter (depthAfter_eq_zero_iff.mpr h)

theorem Balanced.matched {w : List Char} (h : Balanced b w) : Matched b w :=
  depthAfter_eq_zero_iff.mp (h 0)

/-- A text that closes a bracket outside of it does so at a first one. -/
theorem exists_closer_of_depthAfter {depth : Nat} {w : List Char}
    (h : depthAfter b depth w = none) :
    ∃ u v, w = u ++ b.closer :: v ∧ depthAfter b depth u = some 0 := by
  induction w generalizing depth with
  | nil => cases h
  | cons c w ih =>
    have hlater {depth' : Nat} (hstep : ∀ u, depthAfter b depth (c :: u) = depthAfter b depth' u)
        (hrest : depthAfter b depth' w = none) :
        ∃ u v, c :: w = u ++ b.closer :: v ∧ depthAfter b depth u = some 0 := by
      obtain ⟨u, v, rfl, hu⟩ := ih hrest
      exact ⟨c :: u, v, rfl, (hstep u).trans hu⟩
    rw [depthAfter.eq_def] at h
    dsimp only at h
    split at h
    · rename_i hopen
      exact hlater (fun u => (depthAfter.eq_def ..).trans (if_pos hopen)) h
    · rename_i hopen
      split at h
      · rename_i hclose
        cases depth with
        | zero => exact ⟨[], w, congrArg (· :: w) hclose, rfl⟩
        | succ depth =>
          exact hlater (fun u => (depthAfter.eq_def ..).trans
            ((if_neg hopen).trans (if_pos hclose))) h
      · rename_i hclose
        exact hlater (fun u => (depthAfter.eq_def ..).trans
          ((if_neg hopen).trans (if_neg hclose))) h

/-! ## The first position -/

section Positions

variable {text : List Char} {start i : Nat}

/-- If closing brackets come to outnumber the opening ones, a bracket is closed behind a matched
text. -/
theorem exists_matched_of_closesAt (h : ClosesAt b text start i) :
    ∃ u v, text.drop start = u ++ b.closer :: v ∧ Matched b u := by
  obtain ⟨-, -, hmore⟩ := h
  cases hdepth : depthAfter b 0 (text.drop start) with
  | none =>
    obtain ⟨u, v, hsplit, hu⟩ := exists_closer_of_depthAfter hdepth
    exact ⟨u, v, hsplit, depthAfter_eq_zero_iff.mp hu⟩
  | some depth =>
    have hfew := (depthAfter_eq_some_iff.mp hdepth).1 _ (slice_prefix_drop text start (i + 1))
    omega

theorem isLeast_closesAt_of_matched {u v : List Char}
    (hsplit : text.drop start = u ++ b.closer :: v) (hu : Matched b u) :
    IsLeast {i | ClosesAt b text start i} (start + u.length) := by
  have hlength := congrArg List.length hsplit
  simp only [List.length_drop, List.length_append, List.length_cons] at hlength
  have hslice : slice text start (start + u.length + 1) = u ++ [b.closer] := by
    have hstop : start + u.length + 1 - start = u.length + 1 := by omega
    rw [slice, List.drop_take, hstop, hsplit, List.take_length_add_append]
    rfl
  have hclosed : (slice text start (start + u.length + 1)).count b.opener <
      (slice text start (start + u.length + 1)).count b.closer := by
    rw [hslice, List.count_append, List.count_append, hu.even, List.count_singleton_self,
      List.count_singleton, beq_false_of_ne b.closer_ne_opener]
    exact Nat.lt_succ_self _
  refine ⟨⟨Nat.le_add_right _ _, by omega, hclosed⟩, fun j hj => ?_⟩
  obtain ⟨hstart, -, hmore⟩ := hj
  -- In front of the closing bracket each slice starts the matched text.
  by_contra hbefore
  have hpre : slice text start (j + 1) <+: u := by
    rw [slice, List.drop_take, hsplit, List.take_append_of_le_length (by omega)]
    exact List.take_prefix _ _
  exact absurd hmore (Nat.not_lt.mpr (hu.nonneg _ hpre))

end Positions

/-! ## Slices -/

theorem balancedSlice_of_matched (w : MatchedText b) (u t : List Char) :
    balancedSlice? (u ++ (w.chars ++ b.closer :: t)) u.length b =
        some ⟨w.chars, u.length + w.chars.length + 1⟩ ∧
      balancedSlice (u ++ (w.chars ++ b.closer :: t)) u.length b =
        ⟨w.chars, u.length + w.chars.length + 1⟩ := by
  have hslice := balancedSlice?_of_balanced w.matched.balanced u t
  exact ⟨hslice, by rw [balancedSlice, hslice]; rfl⟩

theorem balancedSlice?_eq_none {text : List Char} {start : Nat}
    (h : ∀ i, ¬ClosesAt b text start i) : balancedSlice? text start b = none := by
  cases hdepth : depthAfter b 0 (text.drop start) with
  | none =>
    obtain ⟨u, v, hsplit, hu⟩ := exists_closer_of_depthAfter hdepth
    exact absurd (isLeast_closesAt_of_matched hsplit (depthAfter_eq_zero_iff.mp hu)).1 (h _)
  | some depth =>
    have hcloser := closerIndex_append hdepth []
    rw [List.append_nil] at hcloser
    rw [balancedSlice?, hcloser]
    rfl

/-- **A slice ends at the first position at which the closing brackets outnumber the opening ones.**
What it holds in front of that position is matched, and its end stands behind it.  If there is no
such position, a strict slice does not exist and a lenient one holds the rest of the text.  So the
slice of a matched text in front of its closing bracket is that text, whatever surrounds it. -/
theorem balancedSlice_cases (text : List Char) (start : Nat) (b : Bracket) :
    ((∃ i, IsLeast {i | ClosesAt b text start i} i ∧ Matched b (slice text start i) ∧
          balancedSlice? text start b = some ⟨slice text start i, i + 1⟩ ∧
          balancedSlice text start b = ⟨slice text start i, i + 1⟩) ∨
        (∀ i, ¬ClosesAt b text start i) ∧ balancedSlice? text start b = none ∧
          balancedSlice text start b = ⟨text.drop start, text.length⟩) ∧
      ∀ (w : MatchedText b) (before after : List Char),
        balancedSlice? (before ++ (w.chars ++ b.closer :: after)) before.length b =
            some ⟨w.chars, before.length + w.chars.length + 1⟩ ∧
          balancedSlice (before ++ (w.chars ++ b.closer :: after)) before.length b =
            ⟨w.chars, before.length + w.chars.length + 1⟩ := by
  refine ⟨?_, balancedSlice_of_matched⟩
  by_cases hsome : ∃ i, ClosesAt b text start i
  · obtain ⟨i, hi⟩ := hsome
    obtain ⟨u, v, hsplit, hu⟩ := exists_matched_of_closesAt hi
    have hstart : (text.take start).length = start := by
      have hle := hi.1.trans hi.2.1.le
      rw [List.length_take, Nat.min_eq_left hle]
    have htext : text = text.take start ++ (u ++ b.closer :: v) := by
      rw [← hsplit, List.take_append_drop]
    have hslice : slice text start (start + u.length) = u := by
      have hpiece := slice_append_append (text.take start) u (b.closer :: v)
      rwa [← htext, hstart] at hpiece
    have hread := balancedSlice_of_matched ⟨u, hu⟩ (text.take start) v
    rw [← htext, hstart] at hread
    refine .inl ⟨start + u.length, isLeast_closesAt_of_matched hsplit hu, ?_⟩
    rw [hslice]
    exact ⟨hu, hread⟩
  · have hnone := not_exists.mp hsome
    have hread := balancedSlice?_eq_none hnone
    exact .inr ⟨hnone, hread, by rw [balancedSlice, hread]; rfl⟩

example : balancedSlice? "f({ a: { b: 1 } }) tail".toList 3 .curly =
    some ⟨" a: { b: 1 } ".toList, 17⟩ := by
  decide

end PlanAudit.Text
