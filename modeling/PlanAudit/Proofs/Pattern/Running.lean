import PlanAudit.Proofs.Pattern.Reading

/-!
# What a pattern takes

The first way to match is the one that counts.  In front of a text it is known for the patterns that
source text is made of: a greedy loop takes the longest run of characters, a fixed text takes
itself, and a lazy loop takes what stands in front of the first place where the rest of the match
succeeds.

## Main definitions

* `Cursor.behind`: the cursor behind a word
* `Pattern.Takes w t p`: in front of `w ++ t` the first thing that the pattern `p` tries is `w`

## Main results

* `takes_loop_one`: a greedy loop takes the longest run
* `takes_lit`, `Takes.append`: fixed texts, and one pattern after the other
* `run_starLazy_one`: a lazy loop stops where the rest of the match succeeds first
-/

namespace PlanAudit

/-! ## Behind a word -/

/-- The cursor behind the word `w`, which is followed by `rest`. -/
def Cursor.behind (c : Cursor) (w rest : List Char) : Cursor :=
  { c with before := w.getLast?.or c.before, offset := c.offset + w.length, rest := rest }

namespace Cursor

variable {c : Cursor} {v w t : List Char}

@[simp] theorem behind_rest : (c.behind w t).rest = t := rfl

@[simp] theorem behind_offset : (c.behind w t).offset = c.offset + w.length := rfl

@[simp] theorem behind_captures : (c.behind w t).captures = c.captures := rfl

@[simp] theorem behind_before : (c.behind w t).before = w.getLast?.or c.before := rfl

@[simp] theorem behind_nil (h : c.rest = t) : c.behind [] t = c := by
  subst h
  rfl

@[simp] theorem behind_behind {s : List Char} :
    (c.behind v s).behind w t = c.behind (v ++ w) t := by
  simp [behind, Option.or_assoc, Nat.add_assoc]

end Cursor

/-- The text of a capture is the word that stands between its ends. -/
theorem Capture.text_eq {index start : Nat} {w t : List Char} :
    (Capture.mk index start (start + w.length) (w ++ t)).text = w := by
  simp [Capture.text]

namespace Pattern

/-! ## Taking a word -/

/-- In front of `w ++ t` the first thing that the pattern tries is `w`: if the rest of the match
succeeds behind it, so does the match. -/
def Takes (w t : List Char) (p : Pattern) : Prop :=
  ∀ (α : Type) (c : Cursor) (next : Cursor → Option α) (a : α),
    c.rest = w ++ t → next (c.behind w t) = some a → p.run c next = some a

section Takes

variable {v w t : List Char} {p q : Pattern}

theorem Takes.append (hp : p.Takes v (w ++ t)) (hq : q.Takes w t) : (p ++ q).Takes (v ++ w) t := by
  intro α c next a hrest hnext
  refine hp α c _ a (by rw [hrest, List.append_assoc]) ?_
  refine hq α (c.behind v (w ++ t)) next a rfl ?_
  rwa [Cursor.behind_behind]

theorem takes_one {accepts : Char → Bool} {x : Char} (h : accepts x = true) :
    (one accepts).Takes [x] t := by
  intro α c next a hrest hnext
  rw [run, hrest]
  exact (if_pos h).trans hnext

theorem takes_char (x : Char) : (char x).Takes [x] t := takes_one (beq_self_eq_true x)

theorem takes_litChars (s : List Char) : (litChars s).Takes s t := by
  induction s with
  | nil =>
    intro α c next a hrest hnext
    rwa [Cursor.behind_nil (by simpa using hrest)] at hnext
  | cons x s ih =>
    cases s with
    | nil => exact takes_char x
    | cons y s => exact (takes_char x).append ih

theorem takes_lit (s : String) : (lit s).Takes s.toList t := takes_litChars s.toList

theorem runLoop_one {accepts : Char → Bool} (ht : ∀ x ∈ t.head?, accepts x = false) {α : Type}
    {next : Cursor → Option α} {a : α} (fuel least : Nat) (c : Cursor)
    (hw : ∀ x ∈ w, accepts x = true) (hleast : least ≤ w.length) (hfuel : w.length < fuel)
    (hrest : c.rest = w ++ t) (hnext : next (c.behind w t) = some a) :
    runLoop (one accepts).run true next fuel least none c = some a := by
  -- Induction on the word: each round reads one of its characters, and none is left for a further
  -- round.
  induction w generalizing fuel least c with
  | nil =>
    obtain ⟨fuel, rfl⟩ : ∃ n, fuel = n + 1 := ⟨fuel - 1, by omega⟩
    obtain rfl : least = 0 := by simpa using hleast
    rw [List.nil_append] at hrest
    rw [Cursor.behind_nil hrest] at hnext
    have hstop : ∀ next' : Cursor → Option α, (one accepts).run c next' = none := by
      intro next'
      rw [run, hrest]
      cases t with
      | nil => rfl
      | cons x t => exact if_neg (by simp [ht x rfl])
    rw [runLoop]
    simp [hstop, hnext]
  | cons x w ih =>
    obtain ⟨fuel, rfl⟩ : ∃ n, fuel = n + 1 := ⟨fuel - 1, by omega⟩
    obtain ⟨hx, hw⟩ := List.forall_mem_cons.mp hw
    have hround := fun least' hleast' => ih fuel least' (c.behind [x] (w ++ t)) hw hleast'
      (by simpa using hfuel) rfl (by rwa [Cursor.behind_behind])
    have hone : ∀ next' : Cursor → Option α,
        (one accepts).run c next' = next' (c.behind [x] (w ++ t)) := by
      intro next'
      rw [run, hrest]
      exact if_pos hx
    cases least with
    | succ least => exact (hone _).trans (hround least (by simpa using hleast))
    | zero =>
      rw [runLoop]
      simp [hone, hround 0 (Nat.zero_le _)]

/-- A greedy loop takes the longest run of characters. -/
theorem takes_loop_one {accepts : Char → Bool} {least : Nat} (hw : ∀ x ∈ w, accepts x = true)
    (hleast : least ≤ w.length) (ht : ∀ x ∈ t.head?, accepts x = false) :
    (loop true least none (one accepts)).Takes w t := by
  intro α c next a hrest hnext
  refine runLoop_one ht _ least c hw hleast ?_ hrest hnext
  rw [hrest, List.length_append]
  omega

/-- A run of name characters in front of another character. -/
theorem takes_name (hne : w ≠ []) (hw : ∀ x ∈ w, Text.isWord x = true)
    (ht : ∀ x ∈ t.head?, Text.isWord x = false) : name.Takes w t :=
  takes_loop_one hw (List.length_pos_of_ne_nil hne) ht

theorem takes_blanks (hw : ∀ x ∈ w, Text.isBlank x = true)
    (ht : ∀ x ∈ t.head?, Text.isBlank x = false) : blanks.Takes w t :=
  takes_loop_one hw (Nat.zero_le _) ht

theorem takes_blanks1 (hne : w ≠ []) (hw : ∀ x ∈ w, Text.isBlank x = true)
    (ht : ∀ x ∈ t.head?, Text.isBlank x = false) : blanks1.Takes w t :=
  takes_loop_one hw (List.length_pos_of_ne_nil hne) ht

theorem takes_textEnd : textEnd.Takes [] [] := by
  intro α c next a hrest hnext
  have hrest : c.rest = [] := hrest
  rw [Cursor.behind_nil hrest] at hnext
  exact (if_pos (by rw [hrest]; rfl)).trans hnext

end Takes

/-! ## Lazy loops -/

theorem run_starLazy_one_step {α : Type} (accepts : Char → Bool) (c : Cursor)
    (next : Cursor → Option α) :
    (starLazy (one accepts)).run c next =
      (next c).or (match c.rest with
        | [] => none
        | x :: xs =>
          if accepts x then (starLazy (one accepts)).run (c.behind [x] xs) next else none) := by
  have hloop : ∀ c : Cursor, (starLazy (one accepts)).run c next =
      runLoop (one accepts).run false next (c.rest.length + 1) 0 none c := by
    intro c
    rw [starLazy, run, Nat.zero_add]
  rw [hloop, runLoop]
  cases hnext : next c with
  | some a => rfl
  | none =>
    cases hrest : c.rest with
    | nil => simp [run, hrest]
    | cons x xs =>
      have hone : ∀ next' : Cursor → Option α, (one accepts).run c next' =
          if accepts x then next' (c.behind [x] xs) else none := by
        intro next'
        rw [run, hrest]
        rfl
      simp [hone, hloop]

theorem run_starLazy_step {α : Type} (c : Cursor) (next : Cursor → Option α) :
    (starLazy anything).run c next =
      (next c).or (match c.rest with
        | [] => none
        | x :: xs => (starLazy anything).run (c.behind [x] xs) next) := by
  refine (run_starLazy_one_step (fun _ => true) c next).trans ?_
  cases c.rest <;> rfl

/-- **A lazy loop stops where the rest of the match succeeds first.** -/
theorem run_starLazy_one {α : Type} {accepts : Char → Bool} {next : Cursor → Option α} {a : α}
    {c : Cursor} {w t : List Char} (hw : ∀ x ∈ w, accepts x = true) (hrest : c.rest = w ++ t)
    (hbefore : ∀ u v, w = u ++ v → v ≠ [] → next (c.behind u (v ++ t)) = none)
    (hnext : next (c.behind w t) = some a) : (starLazy (one accepts)).run c next = some a := by
  induction w generalizing c with
  | nil =>
    rw [Cursor.behind_nil (by simpa using hrest)] at hnext
    rw [run_starLazy_one_step, hnext, Option.some_or]
  | cons x w ih =>
    obtain ⟨hx, hw⟩ := List.forall_mem_cons.mp hw
    have hnone : next c = none := by
      have h := hbefore [] (x :: w) rfl (List.cons_ne_nil x w)
      rwa [Cursor.behind_nil hrest] at h
    rw [run_starLazy_one_step, hnone, Option.none_or, hrest]
    refine (if_pos hx).trans (ih hw (c := c.behind [x] (w ++ t)) rfl (fun u v huv hv => ?_)
      (by rwa [Cursor.behind_behind]))
    rw [Cursor.behind_behind]
    exact hbefore (x :: u) v (by rw [huv, List.cons_append]) hv

theorem run_starLazy_anything {α : Type} {next : Cursor → Option α} {a : α} {c : Cursor}
    {w t : List Char} (hrest : c.rest = w ++ t)
    (hbefore : ∀ u v, w = u ++ v → v ≠ [] → next (c.behind u (v ++ t)) = none)
    (hnext : next (c.behind w t) = some a) : (starLazy anything).run c next = some a :=
  run_starLazy_one (fun _ _ => rfl) hrest hbefore hnext

/-! ## What may be left out -/

theorem runLoop_no_round {α : Type} (body : Cursor → (Cursor → Option α) → Option α)
    (next : Cursor → Option α) (fuel : Nat) (c : Cursor) :
    runLoop body true next fuel 0 (some 0) c = next c := by
  cases fuel with
  | zero => exact if_pos rfl
  | succ fuel =>
    rw [runLoop]
    simp

/-- What may be left out is tried first, as far as it is not empty. -/
theorem run_opt {α : Type} (p : Pattern) (c : Cursor) (next : Cursor → Option α) :
    (opt p).run c next =
      (p.run c fun d => if d.offset = c.offset then none else next d).or (next c) := by
  have hround : ∀ fuel, (fun d : Cursor => if d.offset = c.offset then none
      else runLoop p.run true next fuel 0 (some 0) d) =
      fun d => if d.offset = c.offset then none else next d := by
    intro fuel
    simp only [runLoop_no_round]
  have hmost : (some 1 : Option Nat) ≠ some 0 := by decide
  rw [opt, run, Nat.zero_add, runLoop]
  simp only [if_neg hmost, Option.map_some, Nat.sub_self, hround, if_true]
  cases p.run c _ <;> rfl

/-- What may be left out is taken where it stands. -/
theorem Takes.opt {p : Pattern} {w t : List Char} (h : p.Takes w t) (hne : w ≠ []) :
    (opt p).Takes w t := by
  intro α c next a hrest hnext
  have hmoved : (c.behind w t).offset ≠ c.offset := by
    have hlength := List.length_pos_of_ne_nil hne
    rw [Cursor.behind_offset]
    omega
  have hround := h α c (fun d => if d.offset = c.offset then none else next d) a hrest
    ((if_neg hmoved).trans hnext)
  rw [run_opt, hround, Option.some_or]

/-- It is left out where it does not stand. -/
theorem takes_opt_nil {p : Pattern} {t : List Char}
    (h : ∀ c : Cursor, c.rest = t → p.outcomes c = []) : (opt p).Takes [] t := by
  intro α c next a hrest hnext
  rw [List.nil_append] at hrest
  rw [Cursor.behind_nil hrest] at hnext
  rw [run_opt, run_eq_findSome?, h c hrest, List.findSome?_nil, Option.none_or]
  exact hnext

/-- A fixed text does not match where it does not stand. -/
theorem run_lit_eq_none {α : Type} {s : String} {c : Cursor} (next : Cursor → Option α)
    (h : ¬ s.toList <+: c.rest) : (lit s).run c next = none := by
  rw [run_eq_findSome?, List.findSome?_eq_none_iff]
  intro d hd
  exact absurd ⟨d.rest, (reads_of_mem_lit hd).rest_eq.symm⟩ h

/-! ## Runs of characters among the outcomes -/

/-- A loop that has to make a round reads a word that is not empty. -/
theorem exists_reads_of_mem_loop {accepts : Char → Bool} {greedy : Bool} {c d : Cursor}
    (h : d ∈ (loop greedy 1 none (one accepts)).outcomes c) :
    ∃ w, c.Reads w d ∧ w ≠ [] ∧ ∀ x ∈ w, accepts x = true := by
  obtain ⟨e, he, hde⟩ := List.mem_flatMap.mp h
  obtain ⟨x, xs, hrest, hx, rfl⟩ := mem_outcomes_one.mp he
  have hbody : (one accepts).ReadsOnly (accepts · = true) := fun _ h => h
  obtain ⟨w, hw, hwS⟩ :=
    exists_reads_of_mem_loopOutcomes (exists_reads hbody) greedy _ 0 none _ d hde
  exact ⟨[x] ++ w, (Cursor.Reads.advance hrest).trans hw, by simp,
    List.forall_mem_cons.mpr ⟨hx, hwS⟩⟩

theorem exists_reads_of_mem_plus {accepts : Char → Bool} {c d : Cursor}
    (h : d ∈ (plus (one accepts)).outcomes c) :
    ∃ w, c.Reads w d ∧ w ≠ [] ∧ ∀ x ∈ w, accepts x = true :=
  exists_reads_of_mem_loop h

end Pattern

end PlanAudit
