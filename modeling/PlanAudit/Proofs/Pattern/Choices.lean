import PlanAudit.Proofs.Pattern.Quiet
import PlanAudit.Proofs.Text.Words

/-!
# One result among many ways to match

A pattern can often match in several ways, and most of them lead nowhere.  Where only one of them
lets the rest of the match succeed, its result is the result, wherever it stands among the others.

## Main definitions

* `Cursor.Records d index w`: what was last recorded under the index is `w`
* `Pattern.Silent p`: the pattern `p` records nothing
* `Pattern.Admits w t p`: in front of `w ++ t` the pattern `p` can read `w`
* `Pattern.Apart r s`: neither of two texts begins the other one

## Main results

* `exists_eq_behind`: an outcome of a silent pattern is the cursor behind the word that was read
* `run_eq_of_mem`, `run_eq_none`: the result of the only way that leads on, and no result
* `run_append_of_stop`: what is read up to a character that cannot be read
* `exists_gap_of_mem_blanks1`, `exists_word_of_mem_capture`: the gap or the word that was read
* `takes_oneOfTexts_of_apart`: of several texts the one that stands there
* `takes_oneOfTexts_wordEdge`: of several texts the one that is a whole word
* `run_body`: a body ends at the first brace at the start of a line
-/

namespace PlanAudit

/-! ## What a cursor has recorded -/

/-- What was last recorded under the index is the word. -/
def Cursor.Records (d : Cursor) (index : Nat) (w : List Char) : Prop :=
  (d.captures.find? (·.index == index)).map Capture.text = some w

section Records

variable {c d : Cursor} {index : Nat} {w : List Char}

theorem Cursor.Reads.records (h : c.Reads w d) : (d.record index c).Records index w := by
  have hfirst : (d.record index c).captures.find? (·.index == index) =
      some ⟨index, c.offset, d.offset, c.rest⟩ := by simp [Cursor.record]
  rw [Cursor.Records, hfirst]
  exact congrArg some h.take_eq

theorem Cursor.Records.record {i : Nat} (h : d.Records index w) (hi : i ≠ index) :
    (d.record i c).Records index w := by
  have hskip : (d.record i c).captures.find? (·.index == index) =
      d.captures.find? (·.index == index) := by simp [Cursor.record, hi]
  rw [Cursor.Records, hskip]
  exact h

theorem Cursor.Records.group_eq {m : Match} (h : d.Records index w)
    (hm : m.captures = d.captures) : m.group index = w := by
  obtain ⟨k, hk, htext⟩ := Option.map_eq_some_iff.mp h
  rw [Match.group, Match.capture?, hm, hk]
  exact htext

end Records

namespace Pattern

variable {c : Cursor} {v w t : List Char} {p q : Pattern}

/-! ## Patterns that record nothing -/

/-- The pattern records nothing. -/
def Silent : Pattern → Prop
  | empty => True
  | one _ => True
  | seq first second => Silent first ∧ Silent second
  | alt first second => Silent first ∧ Silent second
  | loop _ _ _ body => Silent body
  | capture _ _ => False
  | here _ => True

section Silent

@[simp] theorem silent_append : (p ++ q).Silent ↔ p.Silent ∧ q.Silent := Iff.rfl

@[simp] theorem silent_one (accepts : Char → Bool) : (one accepts).Silent := trivial

@[simp] theorem silent_loop {greedy : Bool} {least : Nat} {most : Option Nat} :
    (loop greedy least most p).Silent ↔ p.Silent := Iff.rfl

theorem silent_chain {ps : List Pattern} (h : ∀ p ∈ ps, p.Silent) : (chain ps).Silent := by
  induction ps with
  | nil => trivial
  | cons p ps ih =>
    obtain ⟨hp, hps⟩ := List.forall_mem_cons.mp h
    cases ps with
    | nil => exact hp
    | cons q qs => exact ⟨hp, ih hps⟩

@[simp] theorem silent_lit (s : String) : (lit s).Silent :=
  silent_chain (List.forall_mem_map.mpr fun _ _ => trivial)

/-- **An outcome of a silent pattern** is the cursor behind the word that was read. -/
theorem exists_eq_behind {S : Char → Prop} (hp : p.Silent) (hS : p.ReadsOnly S) :
    ∀ c, ∀ d ∈ p.outcomes c, ∃ u, c.rest = u ++ d.rest ∧ d = c.behind u d.rest ∧ ∀ x ∈ u, S x := by
  have stay : ∀ c : Cursor, ∃ u, c.rest = u ++ c.rest ∧ c = c.behind u c.rest ∧ ∀ x ∈ u, S x :=
    fun c => ⟨[], rfl, (Cursor.behind_nil rfl).symm, fun x hx => nomatch hx⟩
  have onward : ∀ {c e d : Cursor},
      (∃ u, c.rest = u ++ e.rest ∧ e = c.behind u e.rest ∧ ∀ x ∈ u, S x) →
      (∃ v, e.rest = v ++ d.rest ∧ d = e.behind v d.rest ∧ ∀ x ∈ v, S x) →
      ∃ w, c.rest = w ++ d.rest ∧ d = c.behind w d.rest ∧ ∀ x ∈ w, S x := by
    rintro c e d ⟨u, hu, he, huS⟩ ⟨v, hv, hd, hvS⟩
    refine ⟨u ++ v, by rw [hu, hv, List.append_assoc], ?_, fun x hx => ?_⟩
    · rw [he, Cursor.behind_behind] at hd
      exact hd
    · exact (List.mem_append.mp hx).elim (huS x) (hvS x)
  -- Induction on the pattern; what stands after the start is read as two words one after the other.
  induction p with
  | empty =>
    intro c d hd
    obtain rfl : d = c := List.mem_singleton.mp hd
    exact stay d
  | one accepts =>
    intro c d hd
    obtain ⟨x, xs, hrest, hx, rfl⟩ := mem_outcomes_one.mp hd
    exact ⟨[x], hrest, rfl, by simpa using hS x hx⟩
  | seq first second ih₁ ih₂ =>
    intro c d hd
    obtain ⟨e, he, hde⟩ := mem_outcomes_append.mp hd
    exact onward (ih₁ hp.1 hS.1 c e he) (ih₂ hp.2 hS.2 e d hde)
  | alt first second ih₁ ih₂ =>
    intro c d hd
    exact (mem_outcomes_alt.mp hd).elim (ih₁ hp.1 hS.1 c d) (ih₂ hp.2 hS.2 c d)
  | loop greedy least most body ih =>
    intro c d hd
    exact rel_of_mem_loopOutcomes
      (R := fun c d => ∃ u, c.rest = u ++ d.rest ∧ d = c.behind u d.rest ∧ ∀ x ∈ u, S x)
      stay onward (ih hp hS) greedy _ least most c d hd
  | capture index body => exact hp.elim
  | here holds =>
    intro c d hd
    obtain ⟨-, rfl⟩ := mem_outcomes_here.mp hd
    exact stay d

/-- An outcome of a silent pattern stands behind the word that it has read. -/
theorem eq_behind_of_reads (hp : p.Silent) {d : Cursor} (hd : d ∈ p.outcomes c)
    (hread : c.Reads w d) : d = c.behind w d.rest := by
  obtain ⟨u, hu, hbehind, -⟩ := exists_eq_behind hp (readsOnly_true p) c d hd
  rw [hread.rest_eq] at hu
  rwa [List.append_cancel_right hu]

theorem captures_of_silent (hp : p.Silent) {d : Cursor} (hd : d ∈ p.outcomes c) :
    d.captures = c.captures := by
  obtain ⟨u, -, hbehind, -⟩ := exists_eq_behind hp (readsOnly_true p) c d hd
  rw [hbehind]
  rfl

theorem records_of_silent (hp : p.Silent) {d : Cursor} (hd : d ∈ p.outcomes c) {index : Nat}
    (h : c.Records index w) : d.Records index w := by
  rw [Cursor.Records, captures_of_silent hp hd]
  exact h

end Silent

/-! ## Words that a pattern can read -/

/-- In front of `w ++ t` the pattern can read `w`. -/
def Admits (w t : List Char) (p : Pattern) : Prop :=
  ∀ c : Cursor, c.rest = w ++ t → c.behind w t ∈ p.outcomes c

section Admits

/-- What a pattern tries first it can read. -/
theorem Takes.admits (h : p.Takes w t) : p.Admits w t := by
  classical
  intro c hrest
  -- What goes on from this cursor only can be reached only if the cursor is among the outcomes.
  have hrun := h Unit c (fun d => if d = c.behind w t then some () else none) () hrest (if_pos rfl)
  rw [run_eq_findSome?] at hrun
  obtain ⟨d, hd, hnext⟩ := List.exists_of_findSome?_eq_some hrun
  split at hnext
  · rename_i heq
    rwa [← heq]
  · cases hnext

theorem Admits.append (hp : p.Admits v (w ++ t)) (hq : q.Admits w t) :
    (p ++ q).Admits (v ++ w) t := by
  intro c hrest
  refine mem_outcomes_append.mpr ⟨c.behind v (w ++ t), hp c (by rw [hrest, List.append_assoc]), ?_⟩
  rw [← Cursor.behind_behind]
  exact hq _ rfl

theorem mem_loopOutcomes_one {accepts : Char → Bool} {greedy : Bool}
    (hw : ∀ x ∈ w, accepts x = true) (fuel least : Nat) (hleast : least ≤ w.length)
    (hfuel : w.length < fuel) (c : Cursor) (hrest : c.rest = w ++ t) :
    c.behind w t ∈ loopOutcomes (one accepts).outcomes greedy fuel least none c := by
  -- Induction on the word: each round reads one of its characters.
  induction w generalizing fuel least c with
  | nil =>
    obtain ⟨fuel, rfl⟩ : ∃ n, fuel = n + 1 := ⟨fuel - 1, by omega⟩
    obtain rfl : least = 0 := by simpa using hleast
    rw [Cursor.behind_nil (by simpa using hrest), loopOutcomes]
    cases greedy <;> simp
  | cons x w ih =>
    obtain ⟨fuel, rfl⟩ : ∃ n, fuel = n + 1 := ⟨fuel - 1, by omega⟩
    obtain ⟨hx, hw⟩ := List.forall_mem_cons.mp hw
    have hone : c.behind [x] (w ++ t) ∈ (one accepts).outcomes c :=
      mem_outcomes_one.mpr ⟨x, w ++ t, hrest, hx, rfl⟩
    have hround := fun least' hleast' => ih hw fuel least' hleast' (by simpa using hfuel)
      (c.behind [x] (w ++ t)) rfl
    rw [show c.behind (x :: w) t = (c.behind [x] (w ++ t)).behind w t by simp]
    cases least with
    | succ least =>
      exact List.mem_flatMap.mpr ⟨_, hone, hround least (by simpa using hleast)⟩
    | zero =>
      have hagain : (c.behind [x] (w ++ t)).behind w t ∈ ((one accepts).outcomes c).flatMap
          fun d => if d.offset = c.offset then []
            else loopOutcomes (one accepts).outcomes greedy fuel 0 none d :=
        List.mem_flatMap.mpr ⟨_, hone, by
          rw [if_neg (by simp)]
          exact hround 0 (Nat.zero_le _)⟩
      rw [loopOutcomes]
      cases greedy
      · exact List.mem_cons_of_mem _ hagain
      · exact List.mem_append_left _ hagain

/-- A loop can read every run of its characters that is long enough. -/
theorem admits_loop_one {accepts : Char → Bool} {greedy : Bool} {least : Nat}
    (hw : ∀ x ∈ w, accepts x = true) (hleast : least ≤ w.length) :
    (loop greedy least none (one accepts)).Admits w t := by
  intro c hrest
  refine mem_loopOutcomes_one hw _ least hleast ?_ c hrest
  rw [hrest, List.length_append]
  omega

/-- What a loop over single characters reads is any run of them. -/
theorem mem_outcomes_star_one {accepts : Char → Bool} {d : Cursor} :
    d ∈ (star (one accepts)).outcomes c ↔
      ∃ w t, (∀ x ∈ w, accepts x = true) ∧ c.rest = w ++ t ∧ d = c.behind w t := by
  constructor
  · intro hd
    have hchars : (star (one accepts)).ReadsOnly (accepts · = true) := fun _ h => h
    obtain ⟨w, hrest, hbehind, hw⟩ :=
      exists_eq_behind (p := star (one accepts)) trivial hchars c d hd
    exact ⟨w, d.rest, hw, hrest, hbehind⟩
  · rintro ⟨w, t, hw, hrest, rfl⟩
    exact admits_loop_one hw (Nat.zero_le _) c hrest

theorem admits_opt_nil : (opt p).Admits [] t := by
  intro c hrest
  have hstop : c ∈ (opt p).outcomes c := by
    rw [opt, outcomes, Nat.zero_add, loopOutcomes]
    simp
  rwa [Cursor.behind_nil (by simpa using hrest)]

theorem Admits.opt (h : p.Admits w t) (hne : w ≠ []) : (opt p).Admits w t := by
  intro c hrest
  have hlen := List.length_pos_of_ne_nil hne
  -- Behind the one round the loop stops.
  have hround : c.behind w t ∈ loopOutcomes p.outcomes true c.rest.length 0 (some 0)
      (c.behind w t) := by
    cases c.rest.length with
    | zero => exact List.mem_singleton_self _
    | succ fuel =>
      rw [loopOutcomes]
      simp
  rw [Pattern.opt, outcomes, Nat.zero_add, loopOutcomes]
  refine List.mem_append_left _ (List.mem_flatMap.mpr ⟨_, h c hrest, ?_⟩)
  rw [if_neg (by simpa using by omega)]
  exact hround

end Admits

/-- In front of `w ++ t` the pattern can read `w`, whatever it records. -/
def Reaches (w t : List Char) (p : Pattern) : Prop :=
  ∀ c : Cursor, c.rest = w ++ t → ∃ d ∈ p.outcomes c, d.rest = t

section Reaches

theorem Admits.reaches (h : p.Admits w t) : p.Reaches w t :=
  fun c hrest => ⟨c.behind w t, h c hrest, rfl⟩

theorem Reaches.append (hp : p.Reaches v (w ++ t)) (hq : q.Reaches w t) :
    (p ++ q).Reaches (v ++ w) t := by
  intro c hrest
  obtain ⟨e, he, hmiddle⟩ := hp c (by rw [hrest, List.append_assoc])
  obtain ⟨d, hd, hend⟩ := hq e hmiddle
  exact ⟨d, mem_outcomes_append.mpr ⟨e, he, hd⟩, hend⟩

theorem Reaches.capture (h : p.Reaches w t) (index : Nat) : (capture index p).Reaches w t := by
  intro c hrest
  obtain ⟨d, hd, hend⟩ := h c hrest
  exact ⟨d.record index c, mem_outcomes_capture.mpr ⟨d, hd, rfl⟩, hend⟩

end Reaches

/-! ## Alternatives and optional parts -/

theorem run_or {α : Type} (next : Cursor → Option α) :
    (p ||| q).run c next = (p.run c next).or (q.run c next) := by
  change (alt p q).run c next = _
  rw [run]
  cases p.run c next <;> rfl

theorem Takes.or_left (h : p.Takes w t) : (p ||| q).Takes w t := by
  intro α c next a hrest hnext
  rw [run_or, h α c next a hrest hnext, Option.some_or]

theorem Takes.or_right (h : q.Takes w t)
    (hnone : ∀ (α : Type) (c : Cursor) (next : Cursor → Option α), c.rest = w ++ t →
      p.run c next = none) : (p ||| q).Takes w t := by
  intro α c next a hrest hnext
  rw [run_or, hnone α c next hrest, Option.none_or]
  exact h α c next a hrest hnext

theorem eq_or_mem_of_mem_opt {d : Cursor} (h : d ∈ (opt p).outcomes c) :
    d = c ∨ d ∈ p.outcomes c := by
  rw [opt, outcomes, Nat.zero_add] at h
  rcases eq_or_exists_of_mem_loopOutcomes h with hstop | ⟨e, he, hd⟩
  · exact Or.inl hstop
  · right
    have hlast : d = e := by
      cases hfuel : c.rest.length with
      | zero =>
        rw [hfuel] at hd
        exact List.mem_singleton.mp hd
      | succ fuel =>
        rw [hfuel, loopOutcomes] at hd
        simpa using hd
    rwa [hlast]

/-- What may be left out starts like what stands behind it or like itself. -/
theorem StartsWith.loop_append {S : Char → Bool} {greedy : Bool} {most : Option Nat}
    (hp : StartsWith S p) (hq : StartsWith S q) : StartsWith S (loop greedy 0 most p ++ q) := by
  intro c d hd
  obtain ⟨e, he, hde⟩ := mem_outcomes_append.mp hd
  rw [outcomes, Nat.zero_add] at he
  rcases eq_or_exists_of_mem_loopOutcomes he with rfl | ⟨f, hf, -⟩
  · exact hq e d hde
  · exact hp c f hf

theorem StartsWith.assoc {S : Char → Bool} {r : Pattern} (h : StartsWith S (p ++ (q ++ r))) :
    StartsWith S (p ++ q ++ r) :=
  fun c d hd => h c d (outcomes_append_assoc p q r c ▸ hd)

/-! ## The only way that leads on -/

section Run

variable {α : Type} {next : Cursor → Option α}

/-- **The result of the only way that leads on** is the result. -/
theorem run_eq_of_mem (next : Cursor → Option α) {e : Cursor} (he : e ∈ p.outcomes c)
    (h : ∀ d ∈ p.outcomes c, next d = none ∨ next d = next e) : p.run c next = next e := by
  rw [run_eq_findSome?]
  cases hnext : next e with
  | none =>
    refine List.findSome?_eq_none_iff.mpr fun d hd => ?_
    exact (h d hd).elim id fun heq => heq.trans hnext
  | some a =>
    have hsome : ((p.outcomes c).findSome? next).isSome :=
      List.findSome?_isSome_iff.mpr ⟨e, he, by rw [hnext, Option.isSome_some]⟩
    obtain ⟨b, hb⟩ := Option.isSome_iff_exists.mp hsome
    obtain ⟨d, hd, hdb⟩ := List.exists_of_findSome?_eq_some hb
    rcases h d hd with hnone | heq
    · rw [hnone] at hdb
      cases hdb
    · rw [hb, ← hdb, heq, hnext]

theorem run_eq_none (h : ∀ d ∈ p.outcomes c, next d = none) : p.run c next = none := by
  rw [run_eq_findSome?]
  exact List.findSome?_eq_none_iff.mpr h

theorem run_eq_none_of_startsWith {S : Char → Bool} (hp : StartsWith S p)
    (hc : ∀ x ∈ c.rest.head?, S x = false) : p.run c next = none := by
  refine run_eq_none fun d hd => ?_
  obtain ⟨x, xs, hrest, hx⟩ := hp c d hd
  rw [hc x (by simp [hrest])] at hx
  cases hx

/-- A lazy loop all of whose stops lead to one result, if to any, has that result. -/
theorem run_starLazy_of_forall {a : α} (hrest : c.rest = w ++ t)
    (h : ∀ u v, w = u ++ v → next (c.behind u (v ++ t)) = none ∨
      next (c.behind u (v ++ t)) = some a)
    (hend : next (c.behind w t) = some a) : (starLazy anything).run c next = some a := by
  -- Induction on the word: the loop stops where it is, or reads a character and tries again.
  induction w generalizing c with
  | nil =>
    rw [Cursor.behind_nil (by simpa using hrest)] at hend
    rw [run_starLazy_step, hend, Option.some_or]
  | cons x w ih =>
    have hhere := h [] (x :: w) rfl
    rw [Cursor.behind_nil hrest] at hhere
    rcases hhere with hnone | hsome
    · rw [run_starLazy_step, hnone, Option.none_or, hrest]
      refine ih (c := c.behind [x] (w ++ t)) rfl (fun u v huv => ?_)
        (by rwa [Cursor.behind_behind])
      rw [Cursor.behind_behind]
      exact h (x :: u) v (by rw [huv, List.cons_append])
    · rw [run_starLazy_step, hsome, Option.some_or]

/-- **What is read up to a character that cannot be read**: the rest of the match starts there. -/
theorem run_append_of_stop {x : Char} (hp : p.Silent) (hS : p.ReadsOnly (· ≠ x))
    (hq : StartsWith (· == x) q) (hw : x ∉ w) (hrest : c.rest = w ++ x :: t)
    (hmem : c.behind w (x :: t) ∈ p.outcomes c) :
    (p ++ q).run c next = q.run (c.behind w (x :: t)) next := by
  refine run_eq_of_mem (fun d => q.run d next) hmem fun d hd => ?_
  obtain ⟨u, hu, hd, huS⟩ := exists_eq_behind hp hS c d hd
  by_cases hx : ∃ r, d.rest = x :: r
  · obtain ⟨r, hr⟩ := hx
    rw [hrest, hr] at hu
    obtain ⟨rfl, rfl⟩ := Text.eq_of_append_cons_eq hw (fun hmem => huS x hmem rfl) hu
    right
    rw [hd, hr]
  · -- The rest of the pattern starts with the character, which does not stand here.
    left
    refine run_eq_none fun e he => ?_
    obtain ⟨y, ys, hy, hyx⟩ := hq d e he
    exact absurd ⟨ys, by rw [hy, beq_iff_eq.mp hyx]⟩ hx

theorem run_append_eq_none_of_stop {x : Char} (hp : p.Silent) (hS : p.ReadsOnly (· ≠ x))
    (hq : StartsWith (· == x) q) (hw : x ∉ w) (hrest : c.rest = w ++ x :: t)
    (hmem : c.behind w (x :: t) ∉ p.outcomes c) : (p ++ q).run c next = none := by
  refine run_eq_none (p := p) fun d hd => run_eq_none fun e he => ?_
  obtain ⟨y, r, hr, hyx⟩ := hq d e he
  obtain rfl : y = x := beq_iff_eq.mp hyx
  obtain ⟨u, hu, hbehind, huS⟩ := exists_eq_behind hp hS c d hd
  rw [hrest, hr] at hu
  obtain ⟨rfl, rfl⟩ := Text.eq_of_append_cons_eq hw (fun hmem => huS y hmem rfl) hu
  rw [hr] at hbehind
  exact absurd (hbehind ▸ hd) hmem

/-- In front of a name the edge of a word stands behind what is not part of one. -/
theorem run_wordEdge (hbefore : ∀ x ∈ c.before, Text.isWord x = false)
    (hrest : ∃ x ∈ c.rest.head?, Text.isWord x = true) :
    wordEdge.run c next = next c := by
  obtain ⟨x, hx, hword⟩ := hrest
  have hhead : c.rest.head? = some x := hx
  refine if_pos (bne_iff_ne.mpr ?_)
  rw [hhead, Option.any_some, hword]
  cases hc : c.before with
  | none => simp
  | some y => simp [hbefore y hc]

/-- At the start of a line the position is no obstacle. -/
theorem run_lineStart (h : StartsLine c.before) : lineStart.run c next = next c :=
  if_pos (startsLine_iff.mpr h)

end Run

/-! ## Words and gaps -/

section Words

variable {d : Cursor}

theorem takes_gap (g : Text.Gap) (ht : ∀ x ∈ t.head?, Text.isBlank x = false) :
    blanks1.Takes g.chars t :=
  takes_blanks1 g.ne_nil g.blank ht

theorem takes_word (n : Text.Word) (ht : ∀ x ∈ t.head?, Text.isWord x = false) :
    name.Takes n.chars t :=
  takes_name n.ne_nil n.word ht

theorem exists_gap_of_mem_blanks1 (hd : d ∈ blanks1.outcomes c) :
    ∃ g : Text.Gap, c.Reads g.chars d := by
  obtain ⟨w, hw, hne, hblank⟩ := exists_reads_of_mem_plus hd
  exact ⟨⟨⟨w, hblank⟩, hne⟩, hw⟩

theorem exists_word_of_mem_capture {index : Nat} (hd : d ∈ (capture index name).outcomes c) :
    ∃ n : Text.Word, c.Reads n.chars d ∧ d.Records index n.chars := by
  obtain ⟨e, he, rfl⟩ := mem_outcomes_capture.mp hd
  obtain ⟨w, hw, hne, hword⟩ := exists_reads_of_mem_plus he
  exact ⟨⟨w, hne, hword⟩, hw.record, hw.records⟩

end Words

/-! ## Single names -/

section SoleName

variable {text : List Char}

theorem takes_word_end (n : Text.Word) : name.Takes n.chars [] := takes_word n nofun

theorem matchesStart_soleName (n : Text.Word) : soleName.matchesStart n.chars = true := by
  have hrun : soleName.matchStart n.chars = some ⟨0, _, n.chars, []⟩ :=
    takes_word_end n _ _ _ _ (List.append_nil _).symm (takes_textEnd _ _ _ _ rfl rfl)
  rw [matchesStart, hrun]
  rfl

/-- What is matched as a single name is one, and at the end perhaps a line feed. -/
theorem exists_of_soleName (h : soleName.matchesStart text = true) :
    ∃ (n : Text.Word) (e : List Char), text = n.chars ++ e ∧ (e = [] ∨ e = ['\n']) := by
  obtain ⟨d, hd⟩ := matchesStart_iff.mp h
  obtain ⟨e, he, hend⟩ := mem_outcomes_append.mp hd
  obtain ⟨n, hn, hne, hword⟩ := exists_reads_of_mem_plus he
  obtain ⟨hatEnd, -⟩ := mem_outcomes_here.mp hend
  exact ⟨⟨n, hne, hword⟩, e.rest, hn.rest_eq,
    (Bool.or_eq_true_iff.mp hatEnd).imp List.isEmpty_iff.mp beq_iff_eq.mp⟩

end SoleName

/-! ## One of several texts -/

section Texts

variable {texts : List String} {s : String}

theorem silent_oneOfTexts (texts : List String) : (oneOfTexts texts).Silent := by
  induction texts with
  | nil => trivial
  | cons s texts ih =>
    cases texts with
    | nil => exact silent_lit s
    | cons r texts => exact ⟨silent_lit s, ih⟩

theorem readsOnly_litChars {S : Char → Prop} {w : List Char} (h : ∀ x ∈ w, S x) :
    (litChars w).ReadsOnly S := by
  have hone : ∀ x ∈ w, (char x).ReadsOnly S := fun x hx y hy => by
    rw [beq_iff_eq.mp hy]
    exact h x hx
  induction w with
  | nil => trivial
  | cons x w ih =>
    obtain ⟨hx, hw⟩ := List.forall_mem_cons.mp hone
    cases w with
    | nil => exact hx
    | cons y w => exact ⟨hx, ih (fun x hx => h x (List.mem_cons_of_mem _ hx)) hw⟩

theorem readsOnly_oneOfTexts {S : Char → Prop} (h : ∀ s ∈ texts, ∀ x ∈ s.toList, S x) :
    (oneOfTexts texts).ReadsOnly S := by
  induction texts with
  | nil => trivial
  | cons s texts ih =>
    obtain ⟨hs, htexts⟩ := List.forall_mem_cons.mp h
    cases texts with
    | nil => exact readsOnly_litChars hs
    | cons r texts => exact ⟨readsOnly_litChars hs, ih htexts⟩

theorem admits_oneOfTexts (hs : s ∈ texts) : (oneOfTexts texts).Admits s.toList t :=
  fun c hrest => mem_outcomes_anyOf.mpr
    ⟨lit s, List.mem_map_of_mem hs, (takes_lit s).admits c hrest⟩

/-- The first of the texts is tried first. -/
theorem takes_oneOfTexts_head : (oneOfTexts (s :: texts)).Takes s.toList t := by
  cases texts with
  | nil => exact takes_lit s
  | cons r texts => exact (takes_lit s).or_left

/-- A choice of texts has no outcome where none of them stands. -/
theorem run_oneOfTexts_eq_none {α : Type} {next : Cursor → Option α}
    (h : ∀ s ∈ texts, ¬ s.toList <+: c.rest) : (oneOfTexts texts).run c next = none := by
  refine run_eq_none fun d hd => ?_
  obtain ⟨s, hs, hread⟩ := exists_reads_of_mem_oneOfTexts hd
  exact absurd ⟨d.rest, hread.rest_eq.symm⟩ (h s hs)

/-- Neither text begins the other one. -/
def Apart (r s : String) : Prop := ¬ r.toList <+: s.toList ∧ ¬ s.toList <+: r.toList

instance (r s : String) : Decidable (Apart r s) := instDecidableAnd

theorem Apart.not_begins {r s : String} (h : Apart r s) (t : List Char) :
    ¬ r.toList <+: s.toList ++ t :=
  fun hpre => (List.prefix_or_prefix_of_prefix hpre (List.prefix_append _ _)).elim h.1 h.2

/-- **Of several texts none of which begins another one**, the one that stands there is taken. -/
theorem takes_oneOfTexts_of_apart (hs : s ∈ texts) (hapart : ∀ r ∈ texts, r ≠ s → Apart r s) :
    (oneOfTexts texts).Takes s.toList t := by
  induction texts with
  | nil => cases hs
  | cons r texts ih =>
    obtain ⟨hr, htexts⟩ := List.forall_mem_cons.mp hapart
    by_cases heq : r = s
    · exact heq ▸ takes_oneOfTexts_head
    · have hmem : s ∈ texts := (List.mem_cons.mp hs).resolve_left (Ne.symm heq)
      cases texts with
      | nil => cases hmem
      | cons q texts =>
        -- The first text fails, as it would begin the one that stands there or go on behind it.
        refine (ih hmem htexts).or_right fun α c next hrest => run_lit_eq_none next ?_
        rw [hrest]
        exact (hr heq).not_begins t

/-- **A whole word is taken**, even where another of the texts is a part of it. -/
theorem takes_oneOfTexts_wordEdge (htexts : ∀ r ∈ texts, r.toList ≠ [] ∧ ∀ x ∈ r.toList,
    Text.isWord x = true) (hs : s ∈ texts) (ht : ∀ x ∈ t.head?, Text.isWord x = false) :
    (oneOfTexts texts ++ wordEdge).Takes s.toList t := by
  -- Behind a word of name characters the edge of a word stands where no name character follows.
  have hedge : ∀ (c : Cursor) {r : String} (v : List Char), r ∈ texts →
      (c.behind r.toList v ∈ wordEdge.outcomes (c.behind r.toList v) ↔
        ∀ x ∈ v.head?, Text.isWord x = false) := by
    intro c r v hr
    obtain ⟨hne, hword⟩ := htexts r hr
    have hlast := List.getLast?_eq_some_getLast hne
    have hbefore := hword _ (List.getLast_mem hne)
    refine mem_outcomes_here.trans ?_
    cases v <;> simp [hlast, hbefore]
  intro α c next a hrest hnext
  rw [← hnext]
  refine run_eq_of_mem next (mem_outcomes_append.mpr ⟨_, admits_oneOfTexts hs c hrest,
    (hedge c t hs).mpr ht⟩) fun d hd => Or.inr (congrArg next ?_)
  obtain ⟨e, he, hend⟩ := mem_outcomes_append.mp hd
  obtain ⟨-, rfl⟩ := mem_outcomes_here.mp hend
  obtain ⟨r, hr, hread⟩ := exists_reads_of_mem_oneOfTexts he
  have hbehind := eq_behind_of_reads (silent_oneOfTexts texts) he hread
  rw [hbehind] at hend ⊢
  have hrun := (hedge c _ hr).mp hend
  have hsplit : s.toList ++ t = r.toList ++ d.rest := by rw [← hrest, hread.rest_eq]
  have hsame : s.toList = r.toList := by
    rw [← Text.takeWhile_append (htexts s hs).2 ht, hsplit,
      Text.takeWhile_append (htexts r hr).2 hrun]
  rw [hsame] at hsplit ⊢
  rw [List.append_cancel_left hsplit]

end Texts

/-! ## Bodies -/

/-- A brace behind a line feed starts a part between line feeds. -/
theorem exists_part_of_brace (before after : List Char) :
    ∃ part ∈ (before ++ '\n' :: '}' :: after).splitOn '\n', part.head? = some '}' := by
  obtain ⟨first, others, hparts⟩ := List.exists_cons_of_ne_nil (List.splitOn_ne_nil '\n' after)
  refine ⟨'}' :: first, ?_, rfl⟩
  rw [List.splitOn_append_cons_self, List.splitOn_cons_eq_if_modifyHead, if_neg (by decide), hparts]
  simp

/-- Where no part between line feeds starts with a brace, none stands behind a line feed. -/
theorem not_infix_of_parts {body : List Char}
    (hbody : ∀ part ∈ body.splitOn '\n', part.head? ≠ some '}') : ¬ ['\n', '}'] <:+: body := by
  rintro ⟨before, after, rfl⟩
  obtain ⟨part, hpart, hhead⟩ := exists_part_of_brace before after
  exact hbody part (by simpa using hpart) hhead

/-- **A body that ends in a line feed**, and in which no brace stands behind one, is closed by the
brace behind it and by none before. -/
theorem run_body {α : Type} {index : Nat} {body after : List Char}
    (hbody : ¬ ['\n', '}'] <:+: body)
    (hfeed : body.getLast? = some '\n') {c : Cursor} (hbefore : c.before = some '{')
    (hrest : c.rest = body ++ '}' :: after) {next : Cursor → Option α} {a : α}
    (hnext : next (((c.behind body ('}' :: after)).record index c).behind ['}'] after) = some a) :
    ((starLazy anything).run c fun d => (lineStart ++ char '}').run (d.record index c) next) =
      some a := by
  have hclosing : ∀ d : Cursor, (lineStart ++ char '}').run d next =
      if d.before.isNone || d.before == some '\n' then (char '}').run d next else none :=
    fun _ => rfl
  refine run_starLazy_anything hrest (fun u v huv hv => ?_) ?_
  · rw [hclosing]
    split
    · -- Where the body could be closed, a brace would stand behind a line feed.
      rename_i hstart
      obtain ⟨x, v, rfl⟩ := List.exists_cons_of_ne_nil hv
      refine if_neg fun hbrace => ?_
      obtain rfl : x = '}' := by simpa using hbrace
      have hlast : u.getLast? = some '\n' := by
        rw [Cursor.record, Cursor.behind_before, hbefore] at hstart
        cases hu : u.getLast? with
        | none => simp [hu] at hstart
        | some y => simpa [hu] using hstart
      obtain ⟨u, rfl⟩ := List.getLast?_eq_some_iff.mp hlast
      exact hbody ⟨u, v, by simp [huv]⟩
    · rfl
  · rw [hclosing, if_pos (by simp [Cursor.record, hfeed])]
    exact takes_char '}' α _ next a rfl hnext

end Pattern

end PlanAudit
