import PlanAudit.Proofs.Pattern.Reading

/-!
# The leftmost match

A search tries the positions of a text from left to right, so that the match it comes back with is
the one that starts first among all those that stand in the text from the given position on.
Whether a pattern occurs at all depends on the outcomes at the positions alone.

## Main definitions

* `Pattern.StandsIn p text m`: at the position where the match `m` starts, `p` matches as it says

## Main results

* `searchFrom_eq_some_iff`, `searchFrom_eq_none_iff`: what a search comes back with
* `findScan_eq_nil_iff`, `findScan_behind_eq_nil_iff`: when nothing is found
* `occursIn_iff`: a pattern occurs if it has an outcome at some position
* `exists_mem_findAll_between`: matches that are found do not overlap
-/

namespace PlanAudit.Pattern

variable {p : Pattern} {m : Match} {text : List Char} {before : Option Char} {offset skip : Nat}

/-- The match stands in the text: it is how the pattern matches at the position where it starts. -/
def StandsIn (p : Pattern) (text : List Char) (m : Match) : Prop :=
  ∃ u t, text = u ++ t ∧ p.matchHere u.getLast? u.length t = some m

/-! ## Positions one by one -/

/-- The position behind a first character, as it is seen from in front of it. -/
theorem matchHere_cons (x : Char) (u t : List Char) :
    p.matchHere ((x :: u).getLast?.or before) (offset + (x :: u).length) t =
      p.matchHere (u.getLast?.or (some x)) (offset + 1 + u.length) t := by
  rw [List.getLast?_cons, Option.some_or, Option.or_some, List.length_cons, Nat.add_assoc,
    Nat.add_comm 1]

/-- A search that fails has tried every position that it was not to leave out. -/
theorem matchHere_of_searchScan_eq_none (h : p.searchScan skip before offset text = none)
    {u t : List Char} (hsplit : text = u ++ t) (hskip : skip ≤ u.length) :
    p.matchHere (u.getLast?.or before) (offset + u.length) t = none := by
  induction text generalizing skip before offset u with
  | nil =>
    obtain ⟨rfl, rfl⟩ := List.append_eq_nil_iff.mp hsplit.symm
    obtain rfl : skip = 0 := Nat.le_zero.mp hskip
    exact h
  | cons x rest ih =>
    cases u with
    | nil =>
      obtain rfl : skip = 0 := Nat.le_zero.mp hskip
      rw [List.nil_append] at hsplit
      rw [searchScan] at h
      split at h
      · cases h
      · rename_i hnone
        rwa [← hsplit]
    | cons y u =>
      obtain ⟨rfl, htail⟩ := List.cons.inj hsplit
      rw [matchHere_cons]
      cases skip with
      | succ skip => exact ih h htail (Nat.le_of_succ_le_succ hskip)
      | zero =>
        rw [searchScan] at h
        split at h
        · cases h
        · exact ih h htail (Nat.zero_le _)

/-- A search that succeeds has found a match, and has tried every position in front of it. -/
theorem exists_first_of_searchScan (h : p.searchScan skip before offset text = some m) :
    ∃ u t, text = u ++ t ∧ skip ≤ u.length ∧
      p.matchHere (u.getLast?.or before) (offset + u.length) t = some m ∧
      ∀ v s, text = v ++ s → skip ≤ v.length → v.length < u.length →
        p.matchHere (v.getLast?.or before) (offset + v.length) s = none := by
  induction text generalizing skip before offset with
  | nil =>
    cases skip with
    | zero => exact ⟨[], [], rfl, Nat.le_refl _, h, fun _ _ _ _ hlt => by cases hlt⟩
    | succ skip => cases h
  | cons x rest ih =>
    cases skip with
    | succ skip =>
      obtain ⟨u, t, rfl, hskip, hm, hfirst⟩ := ih h
      refine ⟨x :: u, t, rfl, Nat.succ_le_succ hskip, ?_, fun v s hsplit hv hlt => ?_⟩
      · rwa [matchHere_cons]
      · cases v with
        | nil => cases hv
        | cons y v =>
          obtain ⟨rfl, htail⟩ := List.cons.inj hsplit
          rw [matchHere_cons]
          exact hfirst v s htail (Nat.le_of_succ_le_succ hv) (Nat.lt_of_succ_lt_succ hlt)
    | zero =>
      rw [searchScan] at h
      split at h
      · rename_i found hfound
        exact ⟨[], x :: rest, rfl, Nat.le_refl _, hfound.trans h, fun _ _ _ _ hlt => by cases hlt⟩
      · rename_i hnone
        obtain ⟨u, t, rfl, -, hm, hfirst⟩ := ih h
        refine ⟨x :: u, t, rfl, Nat.zero_le _, ?_, fun v s hsplit _ hlt => ?_⟩
        · rwa [matchHere_cons]
        · cases v with
          | nil =>
            rw [List.nil_append] at hsplit
            rwa [← hsplit]
          | cons y v =>
            obtain ⟨rfl, htail⟩ := List.cons.inj hsplit
            rw [matchHere_cons]
            exact hfirst v s htail (Nat.zero_le _) (Nat.lt_of_succ_lt_succ hlt)

/-! ## Matches that stand in a text -/

namespace StandsIn

/-- Where a match starts the text is cut in two. -/
theorem exists_split (h : p.StandsIn text m) :
    ∃ u t, text = u ++ t ∧ u.length = m.start ∧ p.matchHere u.getLast? u.length t = some m := by
  obtain ⟨u, t, hsplit, hm⟩ := h
  obtain ⟨d, -, rfl⟩ := exists_outcome_of_matchHere hm
  exact ⟨u, t, hsplit, rfl, hm⟩

/-- At a given position the text is cut in one way only. -/
theorem matchHere_eq (h : p.StandsIn text m) {u t : List Char} (hsplit : text = u ++ t)
    (hstart : u.length = m.start) : p.matchHere u.getLast? u.length t = some m := by
  obtain ⟨v, s, rfl, hv, hm⟩ := h.exists_split
  obtain ⟨rfl, rfl⟩ := List.append_inj hsplit (hv.trans hstart.symm)
  exact hm

/-- Of the matches of a pattern only one starts at a position. -/
theorem eq_of_start_eq {m' : Match} (h : p.StandsIn text m) (h' : p.StandsIn text m')
    (hstart : m.start = m'.start) : m = m' := by
  obtain ⟨u, t, hsplit, hu, hm⟩ := h'.exists_split
  exact Option.some.inj ((h.matchHere_eq hsplit (hu.trans hstart.symm)).symm.trans hm)

theorem start_le_length (h : p.StandsIn text m) : m.start ≤ text.length := by
  obtain ⟨u, t, rfl, hu, -⟩ := h.exists_split
  rw [List.length_append, hu]
  exact Nat.le_add_right _ _

theorem start_le_stop (h : p.StandsIn text m) : m.start ≤ m.stop := by
  obtain ⟨u, t, -, hm⟩ := h
  obtain ⟨d, hd, rfl⟩ := exists_outcome_of_matchHere hm
  obtain ⟨w, hw, -⟩ := exists_reads (readsOnly_true p) _ d hd
  exact hw.offset_eq ▸ Nat.le_add_right _ _

end StandsIn

/-! ## What a search comes back with -/

/-- Nothing is found where no position has a match. -/
theorem findScan_eq_nil_iff : p.findScan 0 before offset text = [] ↔
    ∀ u t, text = u ++ t → p.matchHere (u.getLast?.or before) (offset + u.length) t = none := by
  constructor
  · intro h u t hsplit
    induction text generalizing before offset u with
    | nil =>
      obtain ⟨rfl, rfl⟩ := List.append_eq_nil_iff.mp hsplit.symm
      exact Option.toList_eq_nil_iff.mp h
    | cons x rest ih =>
      rw [findScan] at h
      split at h
      · cases h
      · rename_i hnone
        cases u with
        | nil =>
          rw [List.nil_append] at hsplit
          rwa [← hsplit]
        | cons y u =>
          obtain ⟨rfl, htail⟩ := List.cons.inj hsplit
          rw [matchHere_cons]
          exact ih h u htail
  · intro h
    rw [List.eq_nil_iff_forall_not_mem]
    intro m hm
    obtain ⟨u, t, hsplit, hfound⟩ := exists_position_of_mem_findScan hm
    rw [h u t hsplit] at hfound
    cases hfound

/-- Nothing is found behind a first piece of the text where every match starts in this piece. -/
theorem findScan_behind_eq_nil_iff {w t : List Char} :
    p.findScan 0 w.getLast? w.length t = [] ↔ ∀ m, p.StandsIn (w ++ t) m → m.start < w.length := by
  rw [findScan_eq_nil_iff]
  constructor
  · intro hnone m hm
    by_contra hstart
    obtain ⟨u, s, hsplit, hu, hfound⟩ := hm.exists_split
    -- A match that does not start in the first piece starts in what follows it.
    obtain ⟨v, rfl⟩ : w <+: u :=
      List.prefix_of_prefix_length_le (List.prefix_append w t) ⟨s, hsplit.symm⟩ (by omega)
    rw [List.append_assoc] at hsplit
    have hbehind := hnone v s (List.append_cancel_left hsplit)
    rw [List.getLast?_append, List.length_append, hbehind] at hfound
    cases hfound
  · intro h u s hsplit
    by_contra hfound
    obtain ⟨m, hm⟩ := Option.ne_none_iff_exists'.mp hfound
    have hstands : p.StandsIn (w ++ t) m := by
      refine ⟨w ++ u, s, ?_, ?_⟩
      · rw [hsplit, List.append_assoc]
      · rwa [List.getLast?_append, List.length_append]
    obtain ⟨d, -, rfl⟩ := exists_outcome_of_matchHere hm
    exact absurd (h _ hstands) (Nat.not_lt.mpr (Nat.le_add_right _ _))

theorem searchFrom_eq_none_iff {k : Nat} :
    p.searchFrom text k = none ↔ ∀ m, p.StandsIn text m → m.start < k := by
  constructor
  · intro h m hm
    obtain ⟨u, t, hsplit, hu, hm⟩ := hm.exists_split
    by_contra hk
    have hnone := matchHere_of_searchScan_eq_none h hsplit (by omega)
    rw [Option.or_none, Nat.zero_add, hm] at hnone
    cases hnone
  · intro h
    by_contra hne
    obtain ⟨m, hm⟩ := Option.ne_none_iff_exists'.mp hne
    obtain ⟨u, t, hsplit, hk, hm, -⟩ := exists_first_of_searchScan hm
    rw [Option.or_none, Nat.zero_add] at hm
    obtain ⟨d, -, rfl⟩ := exists_outcome_of_matchHere hm
    exact absurd hk (Nat.not_le_of_lt (h _ ⟨u, t, hsplit, hm⟩))

/-- **A search comes back with the match that starts first** among those at its position or behind
it. -/
theorem searchFrom_eq_some_iff {k : Nat} :
    p.searchFrom text k = some m ↔ p.StandsIn text m ∧ k ≤ m.start ∧
      ∀ m', p.StandsIn text m' → k ≤ m'.start → m.start ≤ m'.start := by
  have hfound : ∀ {m : Match}, p.searchFrom text k = some m → p.StandsIn text m ∧ k ≤ m.start ∧
      ∀ m', p.StandsIn text m' → k ≤ m'.start → m.start ≤ m'.start := by
    intro m h
    obtain ⟨u, t, hsplit, hk, hm, hfirst⟩ := exists_first_of_searchScan h
    rw [Option.or_none, Nat.zero_add] at hm
    have hstands : p.StandsIn text m := ⟨u, t, hsplit, hm⟩
    obtain ⟨d, -, rfl⟩ := exists_outcome_of_matchHere hm
    refine ⟨hstands, hk, fun m' hm' hk' => ?_⟩
    obtain ⟨v, s, hv, hstart, hm'⟩ := hm'.exists_split
    by_contra hlt
    have hnone := hfirst v s hv (hstart ▸ hk') (hstart ▸ Nat.lt_of_not_le hlt)
    rw [Option.or_none, Nat.zero_add, hm'] at hnone
    cases hnone
  refine ⟨hfound, fun ⟨hm, hk, hfirst⟩ => ?_⟩
  cases hsearch : p.searchFrom text k with
  | none => exact absurd hk (Nat.not_le_of_lt (searchFrom_eq_none_iff.mp hsearch m hm))
  | some m' =>
    obtain ⟨hm', hk', hfirst'⟩ := hfound hsearch
    exact congrArg some (hm'.eq_of_start_eq hm
      (Nat.le_antisymm (hfirst' m hm hk) (hfirst m' hm' hk')))

theorem search_eq_some_iff : p.search text = some m ↔
    p.StandsIn text m ∧ ∀ m', p.StandsIn text m' → m.start ≤ m'.start := by
  rw [search, searchFrom_eq_some_iff]
  simp only [Nat.zero_le, true_and, forall_const]

/-- **A pattern occurs in a text** if it has an outcome at some position. -/
theorem occursIn_iff : p.occursIn text = true ↔
    ∃ u t d, text = u ++ t ∧ d ∈ p.outcomes ⟨u.getLast?, u.length, t, []⟩ := by
  rw [occursIn, Option.isSome_iff_ne_none, ne_eq, search, searchFrom_eq_none_iff]
  simp only [Nat.not_lt_zero, imp_false, not_forall, not_not]
  constructor
  · rintro ⟨m, u, t, hsplit, hm⟩
    obtain ⟨d, hd, -⟩ := exists_outcome_of_matchHere hm
    exact ⟨u, t, d, hsplit, hd⟩
  · rintro ⟨u, t, d, hsplit, hd⟩
    obtain ⟨m, hm⟩ := exists_matchHere_of_mem_outcomes hd
    exact ⟨m, u, t, hsplit, hm⟩

theorem occursIn_congr {q : Pattern} (h : ∀ c, p.outcomes c = q.outcomes c) :
    p.occursIn text = q.occursIn text := by
  rw [Bool.eq_iff_iff, occursIn_iff, occursIn_iff]
  simp only [h]

/-! ## Matches do not overlap -/

theorem start_of_matchHere (h : p.matchHere before offset text = some m) : m.start = offset := by
  obtain ⟨d, -, rfl⟩ := exists_outcome_of_matchHere h
  rfl

/-- What is found starts behind the positions that are left out. -/
theorem add_le_start_of_mem_findScan (h : m ∈ p.findScan skip before offset text) :
    offset + skip ≤ m.start := by
  induction text generalizing skip before offset with
  | nil =>
    cases skip with
    | zero => exact Nat.le_of_eq (start_of_matchHere (Option.mem_toList.mp h)).symm
    | succ skip => cases h
  | cons x rest ih =>
    have hlater {n : Nat} (h : m ∈ p.findScan n (some x) (offset + 1) rest) :
        offset + (n + 1) ≤ m.start := Nat.add_right_comm offset 1 n ▸ ih h
    cases skip with
    | succ skip => exact hlater h
    | zero =>
      rw [findScan] at h
      split at h
      · rename_i first hfirst
        rcases List.mem_cons.mp h with rfl | h
        · exact Nat.le_of_eq (start_of_matchHere hfirst).symm
        · exact Nat.le_of_add_right_le (hlater h)
      · exact Nat.le_of_add_right_le (hlater h)

/-- What is found is in the order of the positions. -/
theorem pairwise_start_findScan :
    (p.findScan skip before offset text).Pairwise fun m m' => m.start < m'.start := by
  induction text generalizing skip before offset with
  | nil =>
    cases skip with
    | zero =>
      rw [findScan]
      cases p.matchHere before offset [] with
      | none => exact List.Pairwise.nil
      | some m => exact List.pairwise_singleton _ m
    | succ skip => exact List.Pairwise.nil
  | cons x rest ih =>
    cases skip with
    | succ skip => exact ih
    | zero =>
      rw [findScan]
      split
      · rename_i first hfirst
        refine List.pairwise_cons.mpr ⟨fun m hm => ?_, ih⟩
        rw [start_of_matchHere hfirst]
        exact Nat.le_of_add_right_le (add_le_start_of_mem_findScan hm)
      · exact ih

/-- The last match that is found starts last. -/
theorem start_le_of_getLast?_findAll {m' : Match} (hlast : (p.findAll text).getLast? = some m)
    (hm' : m' ∈ p.findAll text) : m'.start ≤ m.start := by
  obtain ⟨front, hfront⟩ := List.getLast?_eq_some_iff.mp hlast
  have horder : (p.findAll text).Pairwise fun m m' => m.start < m'.start := pairwise_start_findScan
  rw [hfront] at horder hm'
  rcases List.mem_append.mp hm' with hm' | hm'
  · exact Nat.le_of_lt ((List.pairwise_append.mp horder).2.2 m' hm' m (List.mem_singleton_self m))
  · exact Nat.le_of_eq (congrArg Match.start (List.mem_singleton.mp hm'))

theorem exists_mem_findScan_between {m' : Match} (hm : m ∈ p.findScan skip before offset text)
    {u t : List Char} (hsplit : text = u ++ t)
    (hm' : p.matchHere (u.getLast?.or before) (offset + u.length) t = some m')
    (hstart : offset + u.length < m.start) (hstop : m.start < m'.stop) :
    u.length < skip ∨ ∃ e ∈ p.findScan skip before offset text,
      offset + u.length < e.stop ∧ e.stop ≤ m.start := by
  -- Induction on the text: the position is either left out, or tried and not taken.
  induction text generalizing skip before offset u with
  | nil =>
    obtain ⟨rfl, rfl⟩ := List.append_eq_nil_iff.mp hsplit.symm
    cases skip with
    | zero =>
      have hhere := start_of_matchHere (Option.mem_toList.mp hm)
      exact absurd hhere (Nat.ne_of_gt hstart)
    | succ skip => cases hm
  | cons x rest ih =>
    have hlater {n : Nat} (hm : m ∈ p.findScan n (some x) (offset + 1) rest) {v : List Char}
        (hu : u = x :: v) : v.length < n ∨ ∃ e ∈ p.findScan n (some x) (offset + 1) rest,
          offset + u.length < e.stop ∧ e.stop ≤ m.start := by
      subst hu
      have hlength : offset + 1 + v.length = offset + (x :: v).length := by
        rw [List.length_cons]
        omega
      rw [matchHere_cons] at hm'
      rw [← hlength] at hstart ⊢
      exact ih hm (List.cons.inj hsplit).2 hm' hstart
    have hhere (hu : u = []) : p.matchHere before offset (x :: rest) = some m' := by
      subst hu
      rwa [hsplit]
    cases skip with
    | succ skip =>
      cases u with
      | nil => exact Or.inl (Nat.zero_lt_succ skip)
      | cons y v =>
        obtain rfl : x = y := (List.cons.inj hsplit).1
        exact (hlater hm rfl).imp_left Nat.succ_lt_succ
    | zero =>
      right
      rw [findScan] at hm ⊢
      split at hm
      · rename_i first hfirst
        have hfound := start_of_matchHere hfirst
        rcases List.mem_cons.mp hm with rfl | hm
        · omega
        · have hbehind := add_le_start_of_mem_findScan hm
          cases u with
          | nil =>
            -- The match that is found here is the other one, and the search goes on behind it.
            obtain rfl := Option.some.inj (hfirst.symm.trans (hhere rfl))
            omega
          | cons y v =>
            obtain rfl : x = y := (List.cons.inj hsplit).1
            rcases hlater hm rfl with hhidden | ⟨e, he, hcovers⟩
            · refine ⟨first, List.mem_cons_self, ?_, ?_⟩
              · rw [List.length_cons]
                omega
              · omega
            · exact ⟨e, List.mem_cons_of_mem _ he, hcovers⟩
      · rename_i hnone
        cases u with
        | nil =>
          rw [hhere rfl] at hnone
          cases hnone
        | cons y v =>
          obtain rfl : x = y := (List.cons.inj hsplit).1
          exact (hlater hm rfl).resolve_left (Nat.not_lt_zero _)

/-- **Matches do not overlap**: what is found inside of another match is found because a third one,
which ends in front of it, hides where the other one starts. -/
theorem exists_mem_findAll_between {m' : Match} (hm : m ∈ p.findAll text)
    (hm' : p.StandsIn text m') (hstart : m'.start < m.start) (hstop : m.start < m'.stop) :
    ∃ e ∈ p.findAll text, m'.start < e.stop ∧ e.stop ≤ m.start := by
  obtain ⟨u, t, hsplit, hu, hfound⟩ := hm'.exists_split
  rw [← Option.or_none (o := u.getLast?), ← Nat.zero_add u.length] at hfound
  rw [← hu, ← Nat.zero_add u.length] at hstart ⊢
  exact (exists_mem_findScan_between hm hsplit hfound hstart hstop).resolve_left
    (Nat.not_lt_zero _)

end PlanAudit.Pattern
