import PlanAudit.Proofs.Pattern.LineSearch

/-!
# Text without a match

A search passes over a piece of text in which no match starts.  Whether one starts there can depend
on the character before the piece and on what follows it.

## Main definitions

* `Pattern.Quiet p before w t`: in `w`, between `before` and `t`, no match of the pattern `p` starts
* `Pattern.Finds p read text found`: what a search finds in the text, as it is read
* `Pattern.StartsWith S p`: every match of the pattern `p` starts with a character of `S`

## Main results

* `quiet_append`: two pieces one after the other
* `findScan_append_of_quiet`, `searchScan_append_of_quiet`: the search goes on behind the piece
* `quiet_of_forall`: the positions of a piece one by one
* `StartsWith.quiet`: a piece without these characters
-/

namespace PlanAudit.Pattern

open Text

variable {p : Pattern} {before : Option Char} {v w t : List Char}

/-- In `w`, between `before` and `t`, no match of the pattern starts. -/
def Quiet (p : Pattern) (before : Option Char) : List Char → List Char → Prop
  | [], _ => True
  | c :: w, t => (∀ offset, p.matchHere before offset (c :: (w ++ t)) = none) ∧
      Quiet p (some c) w t

theorem quiet_append :
    p.Quiet before (v ++ w) t ↔ p.Quiet before v (w ++ t) ∧ p.Quiet (v.getLast?.or before) w t := by
  induction v generalizing before with
  | nil => simp [Quiet]
  | cons c v ih =>
    rw [List.cons_append, Quiet, ih, Quiet, List.append_assoc, and_assoc, List.getLast?_cons,
      Option.some_or, Option.or_some]

/-- **A search goes on behind a piece in which no match starts.** -/
theorem findScan_append_of_quiet (h : p.Quiet before w t) (offset : Nat) :
    p.findScan 0 before offset (w ++ t) =
      p.findScan 0 (w.getLast?.or before) (offset + w.length) t := by
  induction w generalizing before offset with
  | nil => rfl
  | cons c w ih =>
    rw [List.cons_append, findScan, h.1]
    refine (ih h.2 (offset + 1)).trans ?_
    rw [List.getLast?_cons, Option.some_or, Option.or_some, List.length_cons, Nat.add_assoc,
      Nat.add_comm 1]

theorem searchScan_append_of_quiet (h : p.Quiet before w t) (offset : Nat) :
    p.searchScan 0 before offset (w ++ t) =
      p.searchScan 0 (w.getLast?.or before) (offset + w.length) t := by
  induction w generalizing before offset with
  | nil => rfl
  | cons c w ih =>
    rw [List.cons_append, searchScan, h.1]
    refine (ih h.2 (offset + 1)).trans ?_
    rw [List.getLast?_cons, Option.some_or, Option.or_some, List.length_cons, Nat.add_assoc,
      Nat.add_comm 1]

/-- The leftmost match is the one that starts at the position. -/
theorem searchScan_of_matchHere {offset : Nat} {m : Match}
    (hm : p.matchHere before offset t = some m) : p.searchScan 0 before offset t = some m := by
  cases t with
  | nil => exact hm
  | cons c t => rw [searchScan, hm]

theorem searchScan_length (offset : Nat) :
    p.searchScan w.length before offset (w ++ t) =
      p.searchScan 0 (w.getLast?.or before) (offset + w.length) t := by
  induction w generalizing before offset with
  | nil => rfl
  | cons c w ih =>
    rw [List.length_cons, List.cons_append, searchScan, ih, List.getLast?_cons, Option.some_or,
      Option.or_some, Nat.add_assoc, Nat.add_comm 1]

/-- No match starts in the piece if none starts at any of its positions. -/
theorem quiet_of_forall
    (h : ∀ u s, w = u ++ s → s ≠ [] → ∀ c d, c.before = u.getLast?.or before →
      c.rest = s ++ t → d ∉ p.outcomes c) : p.Quiet before w t := by
  induction w generalizing before with
  | nil => trivial
  | cons x w ih =>
    constructor
    · intro offset
      by_contra hm
      obtain ⟨m, hm⟩ := Option.ne_none_iff_exists'.mp hm
      obtain ⟨d, hd, -⟩ := exists_outcome_of_matchHere hm
      exact h [] (x :: w) rfl (List.cons_ne_nil x w) _ d rfl rfl hd
    · refine ih fun u s hsplit hs c d hbefore hrest => ?_
      refine h (x :: u) s (congrArg (x :: ·) hsplit) hs c d ?_ hrest
      rw [hbefore, List.getLast?_cons, Option.some_or, Option.or_some]

/-! ## What is found, wherever the text stands -/

section Finds

variable {α : Type} {read : Match → α} {found : List α}

/-- What a search finds in the text, as it is read, does not depend on where the text stands. -/
def Finds (p : Pattern) (read : Match → α) (text : List Char) (found : List α) : Prop :=
  ∀ before offset, (p.findScan 0 before offset text).map read = found

theorem Finds.quiet (h : p.Finds read t found) (hw : ∀ before, p.Quiet before w t) :
    p.Finds read (w ++ t) found := by
  intro before offset
  rw [findScan_append_of_quiet (hw before)]
  exact h _ _

theorem Finds.cons {a : α} (h : p.Finds read t found) (hne : w ≠ [])
    (hm : ∀ before offset, ∃ m, p.matchHere before offset (w ++ t) = some m ∧
      m.stop = offset + w.length ∧ read m = a) : p.Finds read (w ++ t) (a :: found) := by
  intro before offset
  obtain ⟨m, hmatch, hstop, hread⟩ := hm before offset
  rw [findScan_append_of_matchHere hne hmatch hstop, List.map_cons, hread, h]

/-- The same behind a piece in which no match starts, where the character in front matters. -/
theorem Finds.cons_behind {a : α} (h : p.Finds read t found)
    (hv : ∀ before, p.Quiet before v (w ++ t)) (hne : w ≠ []) (hm : ∀ before offset, ∃ m,
      p.matchHere (v.getLast?.or before) offset (w ++ t) = some m ∧
        m.stop = offset + w.length ∧ read m = a) : p.Finds read (v ++ (w ++ t)) (a :: found) := by
  intro before offset
  obtain ⟨m, hmatch, hstop, hread⟩ := hm before (offset + v.length)
  rw [findScan_append_of_quiet (hv before), findScan_append_of_matchHere hne hmatch hstop,
    List.map_cons, hread, h]

theorem finds_nil (h : ∀ before offset, p.matchHere before offset [] = none) :
    p.Finds read [] [] := by
  intro before offset
  rw [findScan, h]
  rfl

end Finds

/-! ## The first character of a match -/

section StartsWith

variable {S : Char → Bool}

/-- Every match of the pattern starts with a character of `S`. -/
def StartsWith (S : Char → Bool) (p : Pattern) : Prop :=
  ∀ c d, d ∈ p.outcomes c → ∃ x xs, c.rest = x :: xs ∧ S x = true

theorem startsWith_one_of {accepts : Char → Bool} (h : ∀ x, accepts x = true → S x = true) :
    StartsWith S (one accepts) := by
  intro c d hd
  obtain ⟨x, xs, hrest, hx, -⟩ := mem_outcomes_one.mp hd
  exact ⟨x, xs, hrest, h x hx⟩

theorem startsWith_one : StartsWith S (one S) := startsWith_one_of fun _ h => h

theorem startsWith_char {x : Char} (hx : S x = true) : StartsWith S (char x) :=
  startsWith_one_of fun y hy => by rwa [beq_iff_eq.mp hy]

theorem startsWith_lit {x : Char} {t : List Char} {s : String}
    (hs : s.toList = x :: t) (hx : S x = true) : StartsWith S (lit s) := by
  intro c d hd
  have hrest := (reads_of_mem_lit hd).rest_eq
  rw [hs] at hrest
  exact ⟨x, _, hrest, hx⟩

/-- A loop that makes a round starts like the round. -/
theorem startsWith_loop {greedy : Bool} {least : Nat} {most : Option Nat} (hp : StartsWith S p) :
    StartsWith S (loop greedy (least + 1) most p) := by
  intro c d hd
  rw [outcomes, loopOutcomes] at hd
  obtain ⟨e, he, -⟩ := List.mem_flatMap.mp hd
  exact hp c e he

theorem startsWith_here_append (holds : Option Char → List Char → Bool) (hp : StartsWith S p) :
    StartsWith S (here holds ++ p) := by
  intro c d hd
  obtain ⟨e, he, hde⟩ := mem_outcomes_append.mp hd
  obtain ⟨-, rfl⟩ := mem_outcomes_here.mp he
  exact hp e d hde

theorem startsWith_plus {accepts : Char → Bool} (h : ∀ x, accepts x = true → S x = true) :
    StartsWith S (plus (one accepts)) :=
  startsWith_loop (startsWith_one_of h)

theorem startsWith_capture_name (index : Nat) : StartsWith isWord (capture index name) := by
  intro c d hd
  obtain ⟨e, he, rfl⟩ := mem_outcomes_capture.mp hd
  exact startsWith_plus (fun _ h => h) c e he

theorem StartsWith.append (hp : StartsWith S p) (q : Pattern) : StartsWith S (p ++ q) := by
  intro c d hd
  obtain ⟨e, he, -⟩ := mem_outcomes_append.mp hd
  exact hp c e he

/-- In front of another character the pattern has no outcome. -/
theorem StartsWith.notMem_outcomes (hp : StartsWith S p) {c d : Cursor} {x : Char}
    (hrest : c.rest = x :: t) (hx : S x = false) : d ∉ p.outcomes c := by
  intro hd
  obtain ⟨y, ys, hy, hS⟩ := hp c d hd
  obtain ⟨rfl, -⟩ := List.cons.inj (hrest.symm.trans hy)
  rw [hx] at hS
  cases hS

/-- Where none of these characters stands, no match starts. -/
theorem StartsWith.quiet (hp : StartsWith S p) (hw : ∀ x ∈ w, S x = false) :
    p.Quiet before w t := by
  refine quiet_of_forall fun u s hsplit hs c d _ hrest hd => ?_
  obtain ⟨x, xs, hx, hS⟩ := hp c d hd
  obtain ⟨y, s, rfl⟩ := List.exists_cons_of_ne_nil hs
  rw [hrest, List.cons_append] at hx
  obtain ⟨rfl, -⟩ := List.cons.inj hx
  rw [hw y (by simp [hsplit])] at hS
  cases hS

theorem StartsWith.matchHere_nil (hp : StartsWith S p) (offset : Nat) :
    p.matchHere before offset [] = none := by
  by_contra hm
  obtain ⟨m, hm⟩ := Option.ne_none_iff_exists'.mp hm
  obtain ⟨d, hd, -⟩ := exists_outcome_of_matchHere hm
  obtain ⟨x, xs, hrest, -⟩ := hp _ d hd
  cases hrest

theorem StartsWith.matchStart_eq_none (hp : StartsWith S p)
    (hw : ∀ c ∈ w.head?, S c = false) : p.matchStart w = none := by
  refine Pattern.matchStart_eq_none fun d hd => ?_
  obtain ⟨x, xs, hrest, hx⟩ := hp _ d hd
  have hfirst : w = x :: xs := hrest
  rw [hw x (by rw [hfirst]; rfl)] at hx
  cases hx

theorem StartsWith.finds_nil {α : Type} {read : Match → α} (hp : StartsWith S p)
    (hw : ∀ x ∈ w, S x = false) : p.Finds read w [] := by
  rw [← List.append_nil w]
  exact (Pattern.finds_nil fun _ _ => hp.matchHere_nil _).quiet fun _ => hp.quiet hw

end StartsWith

end PlanAudit.Pattern
