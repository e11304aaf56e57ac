import PlanAudit.Proofs.Pattern.Quiet
import PlanAudit.Proofs.Text.Words

/-!
# Where matches stand

A match that stands at a position is found there, unless one that starts earlier reaches beyond it:
matches do not overlap, and the earlier one wins.  What matches cannot reach beyond is a character
that they do not read.  To find out where in a text something starts, the text is taken apart into
pieces; one in which it cannot start, whatever part of it is looked at together with what follows,
is passed over.

## Main definitions

* `Avoids D w t`: nothing that satisfies `D` starts in `w`, which stands in front of `t`
* `Pattern.Begins D p`: every match of the pattern `p` stands in front of a text that satisfies `D`

## Main results

* `Avoids.append`, `Avoids.pass`: one piece after the other, and what starts behind a piece
* `exists_findScan_append`: the search goes on behind a piece out of which no match reaches
* `mem_findAll_of_matchHere`, `mem_findAll_behind`: a match behind such a piece is found
* `add_lt_of_readsOnly`: matches do not reach beyond a character that they do not read
* `Begins.quiet`: no match starts where nothing starts that it could read
-/

namespace PlanAudit.Text

/-! ## Where something cannot start -/

variable {D : List Char → Prop} {u v w s t : List Char}

/-- Nothing that satisfies `D` starts in `w`, which stands in front of `t`. -/
def Avoids (D : List Char → Prop) (w t : List Char) : Prop :=
  ∀ u s, w = u ++ s → s ≠ [] → ¬ D (s ++ t)

theorem avoids_nil : Avoids D [] t := fun _ _ hsplit hs =>
  absurd (List.append_eq_nil_iff.mp hsplit.symm).2 hs

theorem Avoids.append (hv : Avoids D v (w ++ t)) (hw : Avoids D w t) : Avoids D (v ++ w) t := by
  intro u s hsplit hs hD
  rcases List.append_eq_append_iff.mp hsplit with ⟨z, rfl, hz⟩ | ⟨z, rfl, rfl⟩
  · exact hw z s hz hs hD
  · cases z with
    | nil => exact hw [] w rfl hs (by simpa using hD)
    | cons x z => exact hv u (x :: z) rfl (List.cons_ne_nil x z) (by simpa using hD)

/-- **What satisfies `D` starts behind the piece.** -/
theorem Avoids.pass (h : Avoids D w t) (hsplit : w ++ t = u ++ s) (hs : D s) :
    ∃ v, u = w ++ v ∧ t = v ++ s := by
  rcases List.append_eq_append_iff.mp hsplit with ⟨z, hu, hz⟩ | ⟨z, hw, hz⟩
  · exact ⟨z, hu, hz⟩
  · cases z with
    | nil => exact ⟨[], by simpa using hw.symm, by simpa using hz.symm⟩
    | cons x z => exact absurd (hz ▸ hs) (h u (x :: z) hw (List.cons_ne_nil x z))

/-- Nothing starts with a character with which it never does. -/
theorem avoids_of_head {S : Char → Bool} (hD : ∀ s, D s → ∃ x r, s = x :: r ∧ S x = true)
    (hw : ∀ x ∈ w, S x = false) : Avoids D w t := by
  intro u s hsplit hs hDs
  obtain ⟨x, s, rfl⟩ := List.exists_cons_of_ne_nil hs
  obtain ⟨y, r, hy, hS⟩ := hD _ hDs
  obtain ⟨rfl, -⟩ := List.cons.inj hy
  rw [hw x (by simp [hsplit])] at hS
  cases hS

end PlanAudit.Text

namespace PlanAudit.Pattern

open Text

variable {p : Pattern} {m : Match} {before : Option Char} {offset : Nat} {u g t : List Char}

/-- **A search goes on behind a piece out of which no match reaches.** -/
theorem exists_findScan_append {skip : Nat}
    (hfront : ∀ v w, u = v ++ w → w ≠ [] → ∀ first,
      p.matchHere (v.getLast?.or before) (offset + v.length) (w ++ t) = some first →
        first.stop ≤ offset + u.length)
    (hskip : skip ≤ u.length) :
    ∃ ms, p.findScan skip before offset (u ++ t) =
      ms ++ p.findScan 0 (u.getLast?.or before) (offset + u.length) t := by
  -- Induction on the piece; what an earlier match leaves out ends with it.
  induction u generalizing skip before offset with
  | nil =>
    obtain rfl : skip = 0 := Nat.le_zero.mp hskip
    exact ⟨[], rfl⟩
  | cons x u ih =>
    have hbehind : ∀ v : List Char, ((x :: v).getLast?.or before) = v.getLast?.or (some x) :=
      fun v => by rw [List.getLast?_cons, Option.some_or, Option.or_some]
    have hlength : ∀ v : List Char, offset + (x :: v).length = offset + 1 + v.length :=
      fun v => by rw [List.length_cons, Nat.add_comm _ 1, Nat.add_assoc]
    have hlater (skip : Nat) (hskip : skip ≤ u.length) :
        ∃ ms, p.findScan skip (some x) (offset + 1) (u ++ t) =
          ms ++ p.findScan 0 ((x :: u).getLast?.or before) (offset + (x :: u).length) t := by
      rw [hbehind, hlength]
      refine ih (fun v w hsplit hw first hfirst => ?_) hskip
      rw [← hbehind, ← hlength] at hfirst
      rw [← hlength]
      exact hfront (x :: v) w (congrArg (x :: ·) hsplit) hw first hfirst
    rw [List.cons_append]
    cases skip with
    | succ skip => exact hlater skip (Nat.le_of_succ_le_succ hskip)
    | zero =>
      rw [findScan]
      split
      · rename_i first hfirst
        have hstop := hfront [] (x :: u) rfl (List.cons_ne_nil x u) first hfirst
        obtain ⟨ms, hms⟩ := hlater (first.stop - offset - 1) (by
          rw [hlength] at hstop
          omega)
        exact ⟨first :: ms, congrArg (first :: ·) hms⟩
      · exact hlater 0 (Nat.zero_le _)

theorem mem_findScan_of_matchHere (hm : p.matchHere before offset t = some m) :
    m ∈ p.findScan 0 before offset t := by
  cases t with
  | nil => exact Option.mem_toList.mpr hm
  | cons x t =>
    rw [findScan, hm]
    exact List.mem_cons_self

/-- **A match is found** if those that start in front of it end there. -/
theorem mem_findAll_of_matchHere (hm : p.matchHere u.getLast? u.length t = some m)
    (hfront : ∀ v w, u = v ++ w → w ≠ [] → ∀ first,
      p.matchHere v.getLast? v.length (w ++ t) = some first → first.stop ≤ u.length) :
    m ∈ p.findAll (u ++ t) := by
  obtain ⟨ms, hms⟩ : ∃ ms, p.findScan 0 none 0 (u ++ t) =
      ms ++ p.findScan 0 (u.getLast?.or none) (0 + u.length) t := by
    refine exists_findScan_append (fun v w hsplit hw first hfirst => ?_) (Nat.zero_le _)
    rw [Option.or_none, Nat.zero_add] at hfirst
    rw [Nat.zero_add]
    exact hfront v w hsplit hw first hfirst
  rw [Option.or_none, Nat.zero_add] at hms
  rw [findAll, hms]
  exact List.mem_append_right ms (mem_findScan_of_matchHere hm)

/-- **A match is found** behind a piece in which none starts, if those that start in front of the
piece end there. -/
theorem mem_findAll_behind (hm : p.matchHere (u ++ g).getLast? (u ++ g).length t = some m)
    (hfront : ∀ v w, u = v ++ w → w ≠ [] → ∀ first,
      p.matchHere v.getLast? v.length (w ++ (g ++ t)) = some first → first.stop ≤ u.length)
    (hg : ∀ before, p.Quiet before g t) : m ∈ p.findAll ((u ++ g) ++ t) := by
  have hinside : ∀ z w n, g = z ++ w → w ≠ [] →
      p.matchHere (u ++ z).getLast? n (w ++ t) = none := by
    rintro z w n rfl hw
    obtain ⟨x, w, rfl⟩ := List.exists_cons_of_ne_nil hw
    rw [List.getLast?_append]
    exact (quiet_append.mp (hg u.getLast?)).2.1 n
  refine mem_findAll_of_matchHere hm fun v w hsplit hw first hfirst => ?_
  rcases List.append_eq_append_iff.mp hsplit with ⟨z, rfl, hz⟩ | ⟨z, rfl, rfl⟩
  · rw [hinside z w _ hz hw] at hfirst
    cases hfirst
  · cases z with
    | nil =>
      rw [List.nil_append] at hfirst hw
      have hnone := hinside [] g v.length rfl hw
      rw [List.append_nil, List.append_nil, hfirst] at hnone
      cases hnone
    | cons x z =>
      rw [List.append_assoc] at hfirst
      rw [List.length_append]
      exact Nat.le_add_right_of_le (hfront v (x :: z) rfl (List.cons_ne_nil x z) first hfirst)

/-- **A match does not reach beyond a character that it does not read.** -/
theorem add_lt_of_readsOnly {x : Char} (hp : p.ReadsOnly (· ≠ x)) {c d : Cursor}
    (hd : d ∈ p.outcomes c) {w : List Char} (hrest : c.rest = w ++ t) (hx : x ∈ w) :
    d.offset < c.offset + w.length := by
  obtain ⟨r, hr, hfree⟩ := exists_reads hp c d hd
  obtain ⟨u, v, rfl⟩ := List.append_of_mem hx
  have hsplit : r ++ d.rest = u ++ x :: (v ++ t) := by
    rw [← hr.rest_eq, hrest, List.append_assoc]
    rfl
  obtain ⟨z, rfl⟩ := exists_eq_append_of_not_mem (fun hmem => hfree x hmem rfl) hsplit
  rw [hr.offset_eq, List.length_append, List.length_append, List.length_cons]
  omega

/-- What stands behind a match. -/
theorem drop_stop_of_matchHere (hm : p.matchHere before u.length t = some m) :
    m.start = u.length ∧ ∃ d : Cursor, d ∈ p.outcomes ⟨before, u.length, t, []⟩ ∧
      (u ++ t).drop m.stop = d.rest := by
  obtain ⟨d, hd, rfl⟩ := exists_outcome_of_matchHere hm
  obtain ⟨w, hw, -⟩ := exists_reads (readsOnly_true p) _ d hd
  refine ⟨rfl, d, hd, ?_⟩
  have hrest : t = w ++ d.rest := hw.rest_eq
  have hstop : d.offset = (u ++ w).length := hw.offset_eq.trans (List.length_append).symm
  dsimp only
  rw [hstop, hrest, ← List.append_assoc, List.drop_left]

/-! ## Texts in which nothing starts -/

/-- Every match of the pattern stands in front of a text that satisfies `D`. -/
def Begins (D : List Char → Prop) (p : Pattern) : Prop := ∀ c d, d ∈ p.outcomes c → D c.rest

section Begins

variable {D : List Char → Prop} {w : List Char}

theorem Begins.append (hp : Begins D p) (q : Pattern) : Begins D (p ++ q) := by
  intro c d hd
  obtain ⟨e, he, -⟩ := mem_outcomes_append.mp hd
  exact hp c e he

/-- **Where nothing starts that satisfies `D`**, no match starts. -/
theorem Begins.quiet (hp : Begins D p) (hw : Avoids D w t) : p.Quiet before w t :=
  quiet_of_forall fun u s hsplit hs c d _ hrest hd => hw u s hsplit hs (hrest ▸ hp c d hd)

theorem Begins.matchStart_eq_none (hp : Begins D p) (hw : ¬ D w) : p.matchStart w = none :=
  Pattern.matchStart_eq_none fun d hd => hw (hp _ d hd)

theorem Begins.findScan_eq_nil (hp : Begins D p) (hnil : ¬ D []) (hw : Avoids D w []) :
    p.findScan 0 before offset w = [] := by
  have hread : p.findScan 0 before offset (w ++ []) =
      p.findScan 0 (w.getLast?.or before) (offset + w.length) [] :=
    findScan_append_of_quiet (hp.quiet hw) offset
  rw [List.append_nil] at hread
  rw [hread, findScan, Option.toList_eq_nil_iff]
  by_contra hm
  obtain ⟨m, hm⟩ := Option.ne_none_iff_exists'.mp hm
  obtain ⟨d, hd, -⟩ := exists_outcome_of_matchHere hm
  exact hnil (hp _ d hd)

end Begins

end PlanAudit.Pattern
