import Mathlib.Data.List.Basic
import PlanAudit.Pattern.Build

/-!
# What a pattern reads

A match reads a piece of the text: the outcomes of a pattern stand after a word that follows the
cursor they start from. Which characters that word can hold, and with which words it can begin, is
read off the pattern itself, without running it.

## Main definitions

* `Cursor.Reads c w d`: the cursor `d` stands after the word `w` that follows `c`
* `Pattern.ReadsOnly S p`: the characters that the pattern `p` consumes satisfy `S`

## Main results

* `exists_reads`: every outcome stands after a word of the characters that the pattern admits
* `reads_of_mem_lit`, `exists_reads_of_mem_oneOfTexts`: fixed texts read themselves
* `forall_mem_of_matchesStart`: a pattern up to the end of the text bounds the characters of it
* `exists_position_of_mem_findAll`, `exists_outcome_of_mem_findAll`: every match of a search stands
  at a position and is an outcome there
* `findScan_eq_nil`: nothing is found where there is no outcome
-/

namespace PlanAudit

/-! ## Reading a word -/

/-- The cursor `d` stands after the word `w` that follows the cursor `c`. -/
structure Cursor.Reads (c : Cursor) (w : List Char) (d : Cursor) : Prop where
  /-- The word and what follows `d` are what follows `c`. -/
  rest_eq : c.rest = w ++ d.rest
  /-- The offset counts the characters of the word. -/
  offset_eq : d.offset = c.offset + w.length

namespace Cursor.Reads

variable {c d e : Cursor} {v w : List Char}

theorem refl (c : Cursor) : c.Reads [] c := ⟨rfl, rfl⟩

theorem trans (h : c.Reads v d) (h' : d.Reads w e) : c.Reads (v ++ w) e where
  rest_eq := by rw [h.rest_eq, h'.rest_eq, List.append_assoc]
  offset_eq := by rw [h'.offset_eq, h.offset_eq, List.length_append, Nat.add_assoc]

theorem advance {x : Char} {xs : List Char} (h : c.rest = x :: xs) :
    c.Reads [x] (c.advance x xs) :=
  ⟨h, rfl⟩

theorem record {index : Nat} {start : Cursor} (h : c.Reads w d) :
    c.Reads w (d.record index start) :=
  ⟨h.rest_eq, h.offset_eq⟩

/-- The text between two cursors is the word read. -/
theorem take_eq (h : c.Reads w d) : c.rest.take (d.offset - c.offset) = w := by
  have hlen : d.offset - c.offset = w.length := by
    have := h.offset_eq
    omega
  rw [h.rest_eq, hlen, List.take_left]

end Cursor.Reads

namespace Pattern

/-! ## The outcomes of each construction -/

variable {c d : Cursor}

theorem mem_outcomes_one {accepts : Char → Bool} :
    d ∈ (one accepts).outcomes c ↔
      ∃ x xs, c.rest = x :: xs ∧ accepts x = true ∧ d = c.advance x xs := by
  rw [outcomes]
  cases c.rest with
  | nil => simp
  | cons x xs => by_cases hx : accepts x = true <;> simp [hx]

theorem mem_outcomes_append {p q : Pattern} :
    d ∈ (p ++ q).outcomes c ↔ ∃ e ∈ p.outcomes c, d ∈ q.outcomes e :=
  List.mem_flatMap

theorem outcomes_append_assoc (p q r : Pattern) (c : Cursor) :
    (p ++ q ++ r).outcomes c = (p ++ (q ++ r)).outcomes c :=
  List.flatMap_assoc

theorem mem_outcomes_alt {p q : Pattern} :
    d ∈ (alt p q).outcomes c ↔ d ∈ p.outcomes c ∨ d ∈ q.outcomes c :=
  List.mem_append

theorem mem_outcomes_capture {index : Nat} {p : Pattern} :
    d ∈ (capture index p).outcomes c ↔ ∃ e ∈ p.outcomes c, e.record index c = d :=
  List.mem_map

theorem mem_outcomes_here {holds : Option Char → List Char → Bool} :
    d ∈ (here holds).outcomes c ↔ holds c.before c.rest = true ∧ d = c := by
  rw [outcomes]
  by_cases h : holds c.before c.rest = true <;> simp [h]

theorem mem_outcomes_anyOf {ps : List Pattern} :
    d ∈ (anyOf ps).outcomes c ↔ ∃ p ∈ ps, d ∈ p.outcomes c := by
  induction ps with
  | nil =>
    refine ⟨fun h => ?_, by simp⟩
    obtain ⟨hfalse, -⟩ := mem_outcomes_here.mp h
    cases hfalse
  | cons p ps ih =>
    cases ps with
    | nil => simp [anyOf]
    | cons q ps =>
      rw [List.exists_mem_cons_iff (fun r : Pattern => d ∈ r.outcomes c), ← ih]
      exact mem_outcomes_alt

theorem mem_outcomes_chain_cons {p : Pattern} {ps : List Pattern} :
    d ∈ (chain (p :: ps)).outcomes c ↔ ∃ e ∈ p.outcomes c, d ∈ (chain ps).outcomes e := by
  cases ps with
  | nil => simp [chain, outcomes]
  | cons q ps => exact mem_outcomes_append

/-! ## Which characters a pattern consumes -/

/-- The characters that the pattern consumes satisfy `S`. -/
def ReadsOnly (S : Char → Prop) : Pattern → Prop
  | empty => True
  | one accepts => ∀ x, accepts x = true → S x
  | seq first second => ReadsOnly S first ∧ ReadsOnly S second
  | alt first second => ReadsOnly S first ∧ ReadsOnly S second
  | loop _ _ _ body => ReadsOnly S body
  | capture _ body => ReadsOnly S body
  | here _ => True

/-- Behind the least number of rounds a loop ends, or goes on with one round and the rounds after
it. -/
theorem eq_or_exists_of_mem_loopOutcomes {body : Cursor → List Cursor} {greedy : Bool}
    {fuel : Nat} {most : Option Nat} (h : d ∈ loopOutcomes body greedy (fuel + 1) 0 most c) :
    d = c ∨ ∃ e ∈ body c, d ∈ loopOutcomes body greedy fuel 0 (most.map (· - 1)) e := by
  have again (hd : d ∈ if most = some 0 then [] else (body c).flatMap fun e =>
      if e.offset = c.offset then [] else loopOutcomes body greedy fuel 0 (most.map (· - 1)) e) :
      ∃ e ∈ body c, d ∈ loopOutcomes body greedy fuel 0 (most.map (· - 1)) e := by
    split at hd
    · cases hd
    · obtain ⟨e, he, hde⟩ := List.mem_flatMap.mp hd
      split at hde
      · cases hde
      · exact ⟨e, he, hde⟩
  rw [loopOutcomes] at h
  -- A greedy loop tries a further round first, a lazy one last.
  cases greedy with
  | true =>
    rcases List.mem_append.mp h with h | h
    · exact Or.inr (again h)
    · exact Or.inl (List.mem_singleton.mp h)
  | false =>
    rcases List.mem_cons.mp h with h | h
    · exact Or.inl h
    · exact Or.inr (again h)

/-- What every round keeps, the rounds together keep. -/
theorem rel_of_mem_loopOutcomes {R : Cursor → Cursor → Prop} (hrefl : ∀ c, R c c)
    (htrans : ∀ {c e d}, R c e → R e d → R c d) {body : Cursor → List Cursor}
    (h : ∀ c, ∀ d ∈ body c, R c d) (greedy : Bool) (fuel least : Nat) (most : Option Nat)
    (c : Cursor) : ∀ d ∈ loopOutcomes body greedy fuel least most c, R c d := by
  -- Induction on the rounds that are left: none, one that must be made, or one that may be made.
  induction fuel generalizing least most c with
  | zero =>
    intro d hd
    rw [loopOutcomes] at hd
    split at hd
    · rw [List.mem_singleton.mp hd]
      exact hrefl c
    · cases hd
  | succ fuel ih =>
    intro d hd
    cases least with
    | succ least =>
      obtain ⟨e, he, hde⟩ := List.mem_flatMap.mp hd
      exact htrans (h c e he) (ih least _ e d hde)
    | zero =>
      rcases eq_or_exists_of_mem_loopOutcomes hd with rfl | ⟨e, he, hde⟩
      · exact hrefl d
      · exact htrans (h c e he) (ih 0 _ e d hde)

/-- Repeating what reads words of `S` reads a word of `S`. -/
theorem exists_reads_of_mem_loopOutcomes {S : Char → Prop} {body : Cursor → List Cursor}
    (h : ∀ c d, d ∈ body c → ∃ w, c.Reads w d ∧ ∀ x ∈ w, S x) (greedy : Bool)
    (fuel least : Nat) (most : Option Nat) (c : Cursor) :
    ∀ d ∈ loopOutcomes body greedy fuel least most c, ∃ w, c.Reads w d ∧ ∀ x ∈ w, S x := by
  refine rel_of_mem_loopOutcomes (fun c => ⟨[], Cursor.Reads.refl c, by simp⟩) ?_ h greedy fuel
    least most c
  -- One round and then the rounds after it: the two words are read one after the other.
  rintro c e d ⟨v, hv, hvS⟩ ⟨w, hw, hwS⟩
  exact ⟨v ++ w, hv.trans hw, fun x hx => (List.mem_append.mp hx).elim (hvS x) (hwS x)⟩

/-- **Every outcome stands after a word** of the characters that the pattern admits. -/
theorem exists_reads {S : Char → Prop} {p : Pattern} (hS : p.ReadsOnly S) :
    ∀ c d, d ∈ p.outcomes c → ∃ w, c.Reads w d ∧ ∀ x ∈ w, S x := by
  -- Induction on the pattern; what stands after the start is read as two words one after the other.
  induction p with
  | empty =>
    intro c d hd
    obtain rfl : d = c := List.mem_singleton.mp hd
    exact ⟨[], Cursor.Reads.refl d, by simp⟩
  | one accepts =>
    intro c d hd
    obtain ⟨x, xs, hrest, hx, rfl⟩ := mem_outcomes_one.mp hd
    exact ⟨[x], Cursor.Reads.advance hrest, by simpa using hS x hx⟩
  | seq first second ih₁ ih₂ =>
    intro c d hd
    obtain ⟨e, he, hde⟩ := mem_outcomes_append.mp hd
    obtain ⟨v, hv, hvS⟩ := ih₁ hS.1 c e he
    obtain ⟨w, hw, hwS⟩ := ih₂ hS.2 e d hde
    exact ⟨v ++ w, hv.trans hw, fun x hx => (List.mem_append.mp hx).elim (hvS x) (hwS x)⟩
  | alt first second ih₁ ih₂ =>
    intro c d hd
    exact (mem_outcomes_alt.mp hd).elim (ih₁ hS.1 c d) (ih₂ hS.2 c d)
  | loop greedy least most body ih =>
    intro c d hd
    exact exists_reads_of_mem_loopOutcomes (ih hS) greedy _ least most c d hd
  | capture index body ih =>
    intro c d hd
    obtain ⟨e, he, rfl⟩ := mem_outcomes_capture.mp hd
    obtain ⟨w, hw, hwS⟩ := ih hS c e he
    exact ⟨w, hw.record, hwS⟩
  | here holds =>
    intro c d hd
    obtain ⟨-, rfl⟩ := mem_outcomes_here.mp hd
    exact ⟨[], Cursor.Reads.refl d, by simp⟩

/-- Every pattern reads some characters or other. -/
theorem readsOnly_true (p : Pattern) : p.ReadsOnly fun _ => True := by
  induction p with
  | empty => trivial
  | one accepts => exact fun _ _ => trivial
  | seq first second ih₁ ih₂ => exact ⟨ih₁, ih₂⟩
  | alt first second ih₁ ih₂ => exact ⟨ih₁, ih₂⟩
  | loop greedy least most body ih => exact ih
  | capture index body ih => exact ih
  | here holds => trivial

theorem exists_reads_of_mem_blanks (h : d ∈ blanks.outcomes c) :
    ∃ w, c.Reads w d ∧ ∀ x ∈ w, Text.isBlank x = true :=
  exists_reads (S := (Text.isBlank · = true)) (p := blanks) (fun _ h => h) c d h

/-- What follows an outcome is an end of what followed the start. -/
theorem rest_suffix_of_mem_outcomes {p : Pattern} (hd : d ∈ p.outcomes c) : d.rest <:+ c.rest := by
  obtain ⟨w, hw, -⟩ := exists_reads (readsOnly_true p) c d hd
  exact ⟨w, hw.rest_eq.symm⟩

/-! ## Fixed texts -/

theorem reads_of_mem_char {x : Char} (h : d ∈ (char x).outcomes c) : c.Reads [x] d := by
  obtain ⟨y, ys, hrest, hy, rfl⟩ := mem_outcomes_one.mp h
  obtain rfl : y = x := by simpa using hy
  exact Cursor.Reads.advance hrest

theorem reads_of_mem_litChars {s : List Char} (h : d ∈ (litChars s).outcomes c) :
    c.Reads s d := by
  induction s generalizing c with
  | nil =>
    obtain rfl : d = c := List.mem_singleton.mp h
    exact Cursor.Reads.refl d
  | cons x s ih =>
    cases s with
    | nil => exact reads_of_mem_char h
    | cons y s =>
      obtain ⟨e, he, hde⟩ := mem_outcomes_append.mp h
      exact (reads_of_mem_char he).trans (ih hde)

/-- A fixed text reads itself. -/
theorem reads_of_mem_lit {s : String} (h : d ∈ (lit s).outcomes c) : c.Reads s.toList d :=
  reads_of_mem_litChars h

/-- A choice of fixed texts reads one of them. -/
theorem exists_reads_of_mem_oneOfTexts {texts : List String}
    (h : d ∈ (oneOfTexts texts).outcomes c) : ∃ s ∈ texts, c.Reads s.toList d := by
  obtain ⟨p, hp, hd⟩ := mem_outcomes_anyOf.mp h
  obtain ⟨s, hs, rfl⟩ := List.mem_map.mp hp
  exact ⟨s, hs, reads_of_mem_lit hd⟩

/-! ## Matches -/

/-- A match at a position is an outcome there. -/
theorem exists_outcome_of_matchHere {p : Pattern} {before : Option Char} {offset : Nat}
    {rest : List Char} {m : Match} (h : p.matchHere before offset rest = some m) :
    ∃ d ∈ p.outcomes ⟨before, offset, rest, []⟩, m = ⟨offset, d.offset, rest, d.captures⟩ := by
  rw [matchHere, run_eq_findSome?] at h
  obtain ⟨d, hd, hm⟩ := List.exists_of_findSome?_eq_some h
  exact ⟨d, hd, (Option.some.inj hm).symm⟩

theorem exists_matchHere_of_mem_outcomes {p : Pattern} {before : Option Char} {offset : Nat}
    {rest : List Char} {d : Cursor} (hd : d ∈ p.outcomes ⟨before, offset, rest, []⟩) :
    ∃ m, p.matchHere before offset rest = some m := by
  rw [matchHere, run_eq_findSome?]
  exact Option.isSome_iff_exists.mp (List.findSome?_isSome_iff.mpr ⟨d, hd, rfl⟩)

/-- A text at the start of which a pattern has no outcome. -/
theorem matchStart_eq_none {p : Pattern} {text : List Char}
    (h : ∀ d, d ∉ p.outcomes ⟨none, 0, text, []⟩) : p.matchStart text = none := by
  by_contra hm
  obtain ⟨m, hm⟩ := Option.ne_none_iff_exists'.mp hm
  obtain ⟨d, hd, -⟩ := exists_outcome_of_matchHere hm
  exact h d hd

/-- A pattern matches at the start of a text exactly if it has an outcome there. -/
theorem matchesStart_iff {p : Pattern} {text : List Char} :
    p.matchesStart text = true ↔ ∃ d, d ∈ p.outcomes ⟨none, 0, text, []⟩ := by
  rw [matchesStart, matchStart, matchHere, run_eq_findSome?, List.findSome?_isSome_iff]
  simp

/-- The characters of a text that a pattern matches up to its end are those that the pattern admits
and, at the end, a line feed. -/
theorem forall_mem_of_matchesStart {S : Char → Prop} {p : Pattern} (hS : p.ReadsOnly S)
    {text : List Char} (h : (p ++ textEnd).matchesStart text = true) :
    ∀ x ∈ text, S x ∨ x = '\n' := by
  obtain ⟨d, hd⟩ := matchesStart_iff.mp h
  obtain ⟨e, he, hde⟩ := mem_outcomes_append.mp hd
  obtain ⟨hend, -⟩ := mem_outcomes_here.mp hde
  obtain ⟨w, hw, hwS⟩ := exists_reads hS _ e he
  -- Behind the word nothing is left but the line feed that the end of the text leaves room for.
  have htext : text = w ++ e.rest := hw.rest_eq
  intro x hx
  rw [htext] at hx
  rcases List.mem_append.mp hx with hx | hx
  · exact Or.inl (hwS x hx)
  · rcases Bool.or_eq_true_iff.mp hend with hnil | hfeed
    · rw [List.isEmpty_iff.mp hnil] at hx
      cases hx
    · rw [beq_iff_eq.mp hfeed] at hx
      exact Or.inr (List.mem_singleton.mp hx)

/-- A text with another character than those of a name is no single name. -/
theorem matchesStart_soleName_eq_false {text : List Char} {x : Char} (hx : x ∈ text)
    (hword : Text.isWord x = false) (hfeed : x ≠ '\n') : soleName.matchesStart text = false := by
  have hreads : name.ReadsOnly fun x => Text.isWord x = true := fun x hx => hx
  rw [Bool.eq_false_iff]
  intro h
  rcases forall_mem_of_matchesStart hreads h x hx with hyes | hyes
  · rw [hword] at hyes
    cases hyes
  · exact hfeed hyes

theorem exists_position_of_mem_findScan {p : Pattern} {m : Match} {text : List Char}
    {skip offset : Nat} {before : Option Char} (h : m ∈ p.findScan skip before offset text) :
    ∃ u t, text = u ++ t ∧
      p.matchHere (u.getLast?.or before) (offset + u.length) t = some m := by
  induction text generalizing skip before offset with
  | nil =>
    cases skip with
    | zero => exact ⟨[], [], rfl, Option.mem_toList.mp h⟩
    | succ skip => cases h
  | cons x rest ih =>
    have hlater {skip : Nat} (h : m ∈ p.findScan skip (some x) (offset + 1) rest) :
        ∃ u t, x :: rest = u ++ t ∧
          p.matchHere (u.getLast?.or before) (offset + u.length) t = some m := by
      obtain ⟨u, t, hsplit, hm⟩ := ih h
      refine ⟨x :: u, t, congrArg (x :: ·) hsplit, ?_⟩
      rwa [List.getLast?_cons, Option.some_or, ← Option.or_some, List.length_cons, Nat.add_comm _ 1,
        ← Nat.add_assoc]
    cases skip with
    | succ skip => exact hlater h
    | zero =>
      -- A search tries every position that no earlier match covers.
      rw [findScan] at h
      split at h
      · rename_i first hfirst
        rcases List.mem_cons.mp h with rfl | h
        · exact ⟨[], x :: rest, rfl, hfirst⟩
        · exact hlater h
      · exact hlater h

/-- **The position of a match.** -/
theorem exists_position_of_mem_findAll {p : Pattern} {m : Match} {text : List Char}
    (h : m ∈ p.findAll text) :
    ∃ u t, text = u ++ t ∧ p.matchHere u.getLast? u.length t = some m := by
  obtain ⟨u, t, hsplit, hm⟩ := exists_position_of_mem_findScan h
  rw [Option.or_none, Nat.zero_add] at hm
  exact ⟨u, t, hsplit, hm⟩

/-- Nothing is found where no outcome stands in front of a part of the text. -/
theorem findScan_eq_nil {p : Pattern} {skip offset : Nat} {before : Option Char}
    {rest : List Char} (h : ∀ c d, d ∈ p.outcomes c → ¬ c.rest <:+ rest) :
    findScan p skip before offset rest = [] := by
  rw [List.eq_nil_iff_forall_not_mem]
  intro m hm
  obtain ⟨u, t, hsplit, hm⟩ := exists_position_of_mem_findScan hm
  obtain ⟨d, hd, -⟩ := exists_outcome_of_matchHere hm
  exact h _ d hd ⟨u, hsplit.symm⟩

/-- **Every match of a search is an outcome** at the position where it starts. -/
theorem exists_outcome_of_mem_findAll {p : Pattern} {text : List Char} {m : Match}
    (h : m ∈ p.findAll text) :
    ∃ c d, d ∈ p.outcomes c ∧ m.start = c.offset ∧ m.stop = d.offset ∧ m.tail = c.rest := by
  obtain ⟨u, t, -, hm⟩ := exists_position_of_mem_findAll h
  obtain ⟨d, hd, rfl⟩ := exists_outcome_of_matchHere hm
  exact ⟨_, d, hd, rfl, rfl, rfl⟩

/-- The text of a match that reads a word is that word. -/
theorem text_eq_of_reads {m : Match} {w : List Char} (hread : c.Reads w d)
    (hstart : m.start = c.offset) (hstop : m.stop = d.offset) (htail : m.tail = c.rest) :
    m.text = w := by
  rw [Match.text, hstart, hstop, htail, hread.take_eq]

end Pattern

end PlanAudit
