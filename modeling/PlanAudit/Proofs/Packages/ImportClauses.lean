import PlanAudit.Packages.Bindings
import PlanAudit.Proofs.Pattern.Choices
import PlanAudit.Proofs.Pattern.Positions
import PlanAudit.Proofs.Text.ObjectKeys
import PlanAudit.Proofs.Text.Segments

/-!
# Import clauses

Between the words `import` and `from` stands a clause: a default import, a namespace, a list of
names, a default import together with one of the others, or what imports types only.  Five patterns
are tried on it one after the other.  None of them matches a clause of a form that a later one is
meant for: what stands behind the first name and the white space there tells the forms apart.

## Main definitions

* `Alias`: a further name behind the word `as`
* `Item`, `NameList`: names in a list, each with an alias if one is wanted
* `Clause`: a clause, and `Clause.bindings`: what it binds at run time

## Main results

* `namedBinding?_item`: what is read of a name in a list
* `clauseBindings_chars`: what is read of a clause is what it binds
-/

namespace PlanAudit.Packages

open Text Pattern

/-! ## Clauses as they are written -/

/-- The word `as`. -/
def asWord : Word := ⟨"as".toList, by decide, by decide⟩

/-- The word `type`. -/
def typeWord : Word := ⟨"type".toList, by decide, by decide⟩

/-- The word `as` and the name behind it. -/
structure Alias where
  /-- What stands in front of the word `as`. -/
  front : Gap
  /-- What stands behind it. -/
  back : Gap
  name : Word

/-- The text of the alias. -/
def Alias.chars (a : Alias) : List Char :=
  a.front.chars ++ (asWord.chars ++ (a.back.chars ++ a.name.chars))

/-- A name in a list. -/
inductive Item where
  /-- A name. -/
  | plain (n : Word)
  /-- A name under another name. -/
  | renamed (n : Word) (a : Alias) (value : n.chars ≠ typeWord.chars)
  /-- The name of a type, perhaps under another name. -/
  | typeOnly (gap : Gap) (n : Word) (a : Option Alias)

/-- The text of the name. -/
def Item.chars : Item → List Char
  | plain n => n.chars
  | renamed n a _ => n.chars ++ a.chars
  | typeOnly gap n a => typeWord.chars ++ (gap.chars ++ (n.chars ++ a.elim [] Alias.chars))

/-- What the name binds at run time. -/
def Item.binding? (package : String) : Item → Option Binding
  | plain n => some ⟨n.string, package, .named, none⟩
  | renamed n a _ => some ⟨a.name.string, package, .named, some n.string⟩
  | typeOnly .. => none

/-- A list of names. -/
structure NameList where
  /-- The names, each with the white space on both sides. -/
  items : List (Blanks × Item × Blanks)
  /-- What stands behind the last comma, if no name does. -/
  rest : Option Blanks

namespace NameList

variable (l : NameList)

/-- What stands between the commas. -/
def cells : List (List Char) :=
  l.items.map (fun i => i.1.chars ++ (i.2.1.chars ++ i.2.2.chars)) ++ l.rest.toList.map Blanks.chars

/-- What stands between the braces. -/
def inner : List Char := [','].intercalate l.cells

/-- The text of the list. -/
def chars : List Char := '{' :: (l.inner ++ ['}'])

/-- What the list binds at run time. -/
def bindings (package : String) : List Binding := l.items.filterMap (·.2.1.binding? package)

end NameList

/-- Several names at once. -/
inductive Group where
  /-- All exports under one name. -/
  | all (a : Alias)
  /-- The exports of a list. -/
  | listed (l : NameList)

namespace Group

/-- The text of the group. -/
def chars : Group → List Char
  | all a => '*' :: a.chars
  | listed l => l.chars

/-- The first character of the group. -/
def mark : Group → Char
  | all _ => '*'
  | listed _ => '{'

/-- What the group binds at run time. -/
def bindings (package : String) : Group → List Binding
  | all a => [⟨a.name.string, package, .namespace, none⟩]
  | listed l => l.bindings package

theorem exists_chars_eq (g : Group) : ∃ t, g.chars = g.mark :: t := by
  cases g <;> exact ⟨_, rfl⟩

end Group

/-- What stands between the words `import` and `from`. -/
inductive Clause where
  /-- The default export. -/
  | one (d : Word)
  | group (g : Group)
  /-- The default export and a group. -/
  | both (d : Word) (gaps : Blanks × Blanks) (g : Group)
  /-- The type that is the default export. -/
  | typeOne (gap : Gap) (d : Word)
  /-- The types of a group. -/
  | typeGroup (gap : Blanks) (g : Group)

namespace Clause

/-- The text of the clause. -/
def chars : Clause → List Char
  | one d => d.chars
  | group g => g.chars
  | both d gaps g => d.chars ++ (gaps.1.chars ++ ',' :: (gaps.2.chars ++ g.chars))
  | typeOne gap d => typeWord.chars ++ (gap.chars ++ d.chars)
  | typeGroup gap g => typeWord.chars ++ (gap.chars ++ g.chars)

/-- What the clause binds at run time. -/
def bindings (package : String) : Clause → List Binding
  | one d => [⟨d.string, package, .default, none⟩]
  | group g => g.bindings package
  | both d _ g => ⟨d.string, package, .default, none⟩ :: g.bindings package
  | typeOne .. | typeGroup .. => []

end Clause

/-! ## Words and white space -/

section Words

variable {w t : List Char}

/-- What is made of words and white space. -/
def IsPhrase (w : List Char) : Prop := ∀ c ∈ w, isWord c = true ∨ isBlank c = true

theorem isPhrase_append : IsPhrase (w ++ t) ↔ IsPhrase w ∧ IsPhrase t := List.forall_mem_append

theorem isPhrase_word (n : Word) : IsPhrase n.chars := fun c hc => Or.inl (n.word c hc)

theorem isPhrase_gap (g : Gap) : IsPhrase g.chars := fun c hc => Or.inr (g.blank c hc)

theorem Alias.isPhrase (a : Alias) : IsPhrase a.chars := by
  simp only [Alias.chars, isPhrase_append]
  exact ⟨isPhrase_gap a.front, isPhrase_word asWord, isPhrase_gap a.back, isPhrase_word a.name⟩

theorem Alias.getLast_append (a : Alias) (v : List Char) :
    ∀ c ∈ (v ++ a.chars).getLast?, isWord c = true := by
  rw [Alias.chars, ← List.append_assoc, ← List.append_assoc, ← List.append_assoc]
  exact a.name.getLast_append _

theorem Item.isPhrase (i : Item) : IsPhrase i.chars := by
  cases i with
  | plain n => exact isPhrase_word n
  | renamed n a _ => exact isPhrase_append.mpr ⟨isPhrase_word n, a.isPhrase⟩
  | typeOnly gap n a =>
    have halias : IsPhrase (a.elim [] Alias.chars) := by
      cases a with
      | none => exact nofun
      | some a => exact a.isPhrase
    simp only [Item.chars, isPhrase_append]
    exact ⟨isPhrase_word typeWord, isPhrase_gap gap, isPhrase_word n, halias⟩

end Words

/-! ## Names in a list -/

section Items

variable {w t : List Char} {package : String}

theorem Alias.takes_front (a : Alias) (t : List Char) :
    (blanks1 ++ lit "as" ++ blanks1).Takes (a.front.chars ++ asWord.chars ++ a.back.chars)
      (a.name.chars ++ t) :=
  ((takes_gap a.front (forall_head?_cons (by decide))).append
    (takes_lit "as")).append (takes_gap a.back (a.name.head_append t))

/-- What an alias pattern matches is a name and an alias, and at the end perhaps a line feed. -/
theorem exists_of_aliasClause {m : Match} (hm : aliasClause.matchStart w = some m) :
    ∃ (n : Word) (a : Alias) (e : List Char), w = n.chars ++ (a.chars ++ e) ∧
      (e = [] ∨ e = ['\n']) := by
  obtain ⟨d, hd, -⟩ := exists_outcome_of_matchHere hm
  -- The pieces of the pattern are split off from the last to the first.
  obtain ⟨c₅, hd, hend⟩ := mem_outcomes_append.mp hd
  obtain ⟨c₄, hd, hname⟩ := mem_outcomes_append.mp hd
  obtain ⟨c₃, hd, hback⟩ := mem_outcomes_append.mp hd
  obtain ⟨c₂, hd, has⟩ := mem_outcomes_append.mp hd
  obtain ⟨c₁, horiginal, hfront⟩ := mem_outcomes_append.mp hd
  obtain ⟨n, hn, -⟩ := exists_word_of_mem_capture horiginal
  obtain ⟨front, hfront⟩ := exists_gap_of_mem_blanks1 hfront
  obtain ⟨back, hback⟩ := exists_gap_of_mem_blanks1 hback
  obtain ⟨l, hl, -⟩ := exists_word_of_mem_capture hname
  obtain ⟨hatEnd, rfl⟩ := mem_outcomes_here.mp hend
  refine ⟨n, ⟨front, back, l⟩, d.rest, ?_, ?_⟩
  · have hread := ((hn.trans hfront).trans (reads_of_mem_lit has)).trans (hback.trans hl)
    have hrest : w = (n.chars ++ front.chars ++ "as".toList ++ (back.chars ++ l.chars)) ++ d.rest :=
      hread.rest_eq
    rw [hrest]
    simp [Alias.chars, asWord]
  · exact (Bool.or_eq_true_iff.mp hatEnd).imp List.isEmpty_iff.mp beq_iff_eq.mp

theorem exists_matchStart_alias (n : Word) (a : Alias) :
    ∃ m, aliasClause.matchStart (n.chars ++ a.chars) = some m ∧ m.group 1 = n.chars ∧
      m.group 2 = a.name.chars := by
  let start : Cursor := ⟨none, 0, n.chars ++ a.chars, []⟩
  have hrun : aliasClause.matchStart start.rest = name.run start fun c =>
      (blanks1 ++ lit "as" ++ blanks1).run (c.record 1 start) fun d => name.run d fun e =>
        textEnd.run (e.record 2 d) fun f => some ⟨0, f.offset, start.rest, f.captures⟩ := rfl
  have hname : name.Takes n.chars a.chars :=
    takes_word n (a.front.head_append _)
  have hrest : a.chars = a.front.chars ++ asWord.chars ++ a.back.chars ++ (a.name.chars ++ []) := by
    simp [Alias.chars]
  exact ⟨_, hrun.trans (hname _ _ _ _ rfl (a.takes_front [] _ _ _ _ hrest
    (takes_word_end a.name _ _ _ _ rfl (takes_textEnd _ _ _ _ rfl rfl)))),
    Capture.text_eq, Capture.text_eq⟩

/-- Behind a text that ends in a name character there is no line feed at the end. -/
theorem eq_nil_of_feed {v e : List Char} (he : e = [] ∨ e = ['\n'])
    (hlast : ∀ c ∈ (v ++ e).getLast?, isWord c = true) : e = [] := by
  rcases he with rfl | rfl
  · rfl
  · exact absurd (hlast '\n' (by simp)) (by decide)

/-- A name alone is not read as one with an alias. -/
theorem aliasClause_eq_none (n : Word) : aliasClause.matchStart n.chars = none := by
  by_contra h
  obtain ⟨m, hm⟩ := Option.ne_none_iff_exists'.mp h
  obtain ⟨n', a, e, hsplit, -⟩ := exists_of_aliasClause hm
  rw [Alias.chars, List.append_assoc] at hsplit
  exact n.ne_of_gap a.front hsplit

/-- A text that begins with the word `type` and a space has this word in front of its first gap. -/
theorem eq_typeWord_of_begins (n : Word) (h : beginsWith "type ".toList (n.chars ++ t) = true)
    (ht : ∀ c ∈ t.head?, isWord c = false) : n.chars = typeWord.chars := by
  obtain ⟨r, hr⟩ := List.isPrefixOf_iff_prefix.mp h
  have hword := congrArg (List.takeWhile isWord) hr
  rw [takeWhile_append n.word ht] at hword
  rw [← hword]
  exact takeWhile_append (w := typeWord.chars) (t := ' ' :: r) typeWord.word
    (forall_head?_cons (by decide))

theorem not_begins_type (n : Word) : beginsWith "type ".toList n.chars = false := by
  by_contra h
  obtain ⟨r, hr⟩ := List.isPrefixOf_iff_prefix.mp (Bool.not_eq_false _ ▸ h)
  refine n.not_mem (x := ' ') (by decide) ?_
  rw [← hr]
  simp

/-- The name of a type is not read as a name with an alias. -/
theorem typeOnly_aliasClause_eq_none (gap : Gap) (n : Word) (a : Option Alias) :
    aliasClause.matchStart (Item.typeOnly gap n a).chars = none := by
  by_contra h
  obtain ⟨m, hm⟩ := Option.ne_none_iff_exists'.mp h
  obtain ⟨n', a', e, hsplit, he⟩ := exists_of_aliasClause hm
  -- The word `type` would be the name, and what follows it the word `as`.
  have hsplit : typeWord.chars ++ (gap.chars ++ (n.chars ++ a.elim [] Alias.chars)) =
      n'.chars ++
        (a'.front.chars ++ (asWord.chars ++ (a'.back.chars ++ (a'.name.chars ++ e)))) := by
    simpa [Item.chars, Alias.chars] using hsplit
  obtain ⟨-, -, hrest⟩ := eq_of_word_gap (n.head_append _) (asWord.head_append _) hsplit
  cases a with
  | none => exact n.ne_of_gap a'.back ((List.append_nil _).symm.trans hrest)
  | some a =>
    obtain ⟨-, -, hname⟩ := eq_of_word_gap (asWord.head_append _) (a'.name.head_append _) hrest
    obtain rfl := eq_nil_of_feed he (v := a'.name.chars) (by
      rw [← hname, ← List.append_assoc]
      exact a.name.getLast_append _)
    exact a'.name.ne_of_gap a.back ((List.append_nil _).symm.trans hname.symm)

theorem typeOnly_soleName (gap : Gap) {r : List Char}
    (hr : ∀ c ∈ r.getLast?, isWord c = true) (hne : r ≠ []) :
    soleName.matchesStart (typeWord.chars ++ (gap.chars ++ r)) = false := by
  by_contra h
  obtain ⟨n, e, hsplit, he⟩ := exists_of_soleName (Bool.not_eq_false _ ▸ h)
  obtain rfl := eq_nil_of_feed he (v := n.chars) (by
    rwa [← hsplit, ← List.append_assoc, List.getLast?_append_of_ne_nil _ hne])
  exact n.ne_of_gap gap ((List.append_nil _).symm.trans hsplit.symm)

/-- A name ends in a name character, also with an alias. -/
theorem getLast_named (n : Word) (a : Option Alias) :
    ∀ c ∈ (n.chars ++ a.elim [] Alias.chars).getLast?, isWord c = true := by
  cases a with
  | none => exact (List.append_nil n.chars).symm ▸ n.getLast_append []
  | some a => exact a.getLast_append _

theorem Item.ends (i : Item) : i.chars ≠ [] ∧ (∀ c ∈ i.chars.head?, isBlank c = false) ∧
    ∀ c ∈ i.chars.getLast?, isBlank c = false := by
  cases i with
  | plain n =>
    exact ⟨n.ne_nil, n.head_chars,
      fun c hc => isBlank_eq_false_of_isWord (n.getLast_append [] c hc)⟩
  | renamed n a _ =>
    exact ⟨by simp [Item.chars, n.ne_nil], n.head_append _,
      fun c hc => isBlank_eq_false_of_isWord (getLast_named n (some a) c hc)⟩
  | typeOnly gap n a =>
    have hne : n.chars ++ a.elim [] Alias.chars ≠ [] := by simp [n.ne_nil]
    refine ⟨by simp [Item.chars, typeWord.ne_nil], typeWord.head_append _, fun c hc => ?_⟩
    rw [Item.chars, ← List.append_assoc, List.getLast?_append_of_ne_nil _ hne] at hc
    exact isBlank_eq_false_of_isWord (getLast_named n a c hc)

/-- **What is read of a name in a list** is what it binds. -/
theorem namedBinding?_item (i : Item) (package : String) :
    namedBinding? package i.chars = i.binding? package := by
  cases i with
  | plain n =>
    rw [Item.chars, namedBinding?, not_begins_type n, aliasClause_eq_none n, matchesStart_soleName]
    rfl
  | renamed n a hvalue =>
    have hbegins : beginsWith "type ".toList (n.chars ++ a.chars) = false := by
      by_contra h
      exact hvalue (eq_typeWord_of_begins n (Bool.not_eq_false _ ▸ h) (a.front.head_append _))
    obtain ⟨m, hm, hname, halias⟩ := exists_matchStart_alias n a
    rw [Item.chars, namedBinding?, hbegins, hm]
    simp only [Match.name, hname, halias]
    rfl
  | typeOnly gap n a =>
    rw [namedBinding?, typeOnly_aliasClause_eq_none, Item.chars,
      typeOnly_soleName gap (getLast_named n a) (by simp [n.ne_nil])]
    exact ite_self none

theorem NameList.isPhrase_cell (l : NameList) {cell : List Char} (h : cell ∈ l.cells) :
    IsPhrase cell := by
  rcases List.mem_append.mp h with h | h
  · obtain ⟨i, -, rfl⟩ := List.mem_map.mp h
    simp only [isPhrase_append]
    exact ⟨fun c hc => Or.inr (i.1.blank c hc), i.2.1.isPhrase,
      fun c hc => Or.inr (i.2.2.blank c hc)⟩
  · obtain ⟨b, -, rfl⟩ := List.mem_map.mp h
    exact fun c hc => Or.inr (b.blank c hc)

theorem NameList.not_mem_cell (l : NameList) {cell : List Char} (h : cell ∈ l.cells) :
    ',' ∉ cell :=
  fun hcomma => absurd (l.isPhrase_cell h _ hcomma) (by decide)

/-- **What is read of a list of names** is what it binds. -/
theorem namedBindings_inner (l : NameList) (package : String) :
    namedBindings package l.inner = l.bindings package := by
  have hnone : namedBinding? package [] = none := rfl
  have hblank (b : Blanks) : strip b.chars = [] := by
    rw [strip, stripStart, List.dropWhile_eq_nil_iff.mpr b.blank]
    rfl
  have hitem (i : Blanks × Item × Blanks) :
      strip (i.1.chars ++ (i.2.1.chars ++ i.2.2.chars)) = i.2.1.chars := by
    obtain ⟨hne, hhead, hlast⟩ := i.2.1.ends
    exact strip_between i.1.blank i.2.2.blank hne hhead hlast
  have hcells : l.cells.filterMap (namedBinding? package ∘ strip) = l.bindings package := by
    rw [NameList.cells, List.filterMap_append, List.filterMap_map]
    have hrest :
        (l.rest.toList.map Blanks.chars).filterMap (namedBinding? package ∘ strip) = [] := by
      cases l.rest with
      | none => rfl
      | some b => simp [hblank, hnone]
    rw [hrest, List.append_nil, NameList.bindings]
    congr 1
    funext i
    simp [hitem, namedBinding?_item]
  -- A list of no names at all is read as one part, which is empty.
  rw [namedBindings, commaParts, List.filterMap_map, ← hcells]
  by_cases hne : l.cells = []
  · rw [NameList.inner, hne]
    simp [hnone, strip, stripStart, stripEnd, dropEndWhile]
  · rw [NameList.inner, List.splitOn_intercalate ',' (fun _ => l.not_mem_cell) hne]

end Items

/-! ## Clauses -/

section Clauses

variable {α : Type} {w t : List Char} {p : Pattern} {package : String}

/-- A comma stands behind the first word, and the character `x` behind the comma. -/
def Continues (x : Char) (w : List Char) : Prop :=
  ∃ b r, afterName w = ',' :: (b ++ x :: r) ∧ ∀ c ∈ b, isBlank c = true

theorem begins_defaultAnd (x : Char) :
    Begins (Continues x) (capture 1 name ++ blanks ++ char ',' ++ blanks ++ char x) := by
  intro c d hd
  obtain ⟨c₄, hd, hmark⟩ := mem_outcomes_append.mp hd
  obtain ⟨c₃, hd, hgap'⟩ := mem_outcomes_append.mp hd
  obtain ⟨c₂, hd, hcomma⟩ := mem_outcomes_append.mp hd
  obtain ⟨c₁, hname, hgap⟩ := mem_outcomes_append.mp hd
  obtain ⟨e, he, rfl⟩ := mem_outcomes_capture.mp hname
  obtain ⟨n, hn, -, hword⟩ := exists_reads_of_mem_plus he
  obtain ⟨b, hb, hblank⟩ := exists_reads_of_mem_blanks hgap
  obtain ⟨b', hb', hblank'⟩ := exists_reads_of_mem_blanks hgap'
  have hread := (((hn.record.trans hb).trans (reads_of_mem_char hcomma)).trans
    hb').trans (reads_of_mem_char hmark)
  have hrest : c.rest = n ++ (b ++ ',' :: (b' ++ x :: d.rest)) := by
    simpa using hread.rest_eq
  have hstop : ∀ y ∈ (b ++ ',' :: (b' ++ x :: d.rest)).head?, isWord y = false :=
    forall_head?_append (fun y hy => isWord_eq_false_of_isBlank (hblank y hy))
      (forall_head?_cons (by decide))
  refine ⟨b', d.rest, ?_, hblank'⟩
  rw [hrest, afterName_append hword hstop, stripStart_append hblank,
    stripStart_eq_self (forall_head?_cons (by decide))]

/-- A greedy run of characters in front of the last brace ends there. -/
theorem run_inside {index : Nat} {c : Cursor} {inner : List Char} {a : α}
    {next : Cursor → Option α} (hrest : c.rest = inner ++ ['}'])
    (hnext : next (((c.behind inner ['}']).record index c).behind ['}'] []) = some a) :
    ((star anything).run c fun d => (char '}').run (d.record index c) fun e =>
      textEnd.run e next) = some a := by
  have hend : ((char '}').run ((c.behind inner ['}']).record index c) fun e =>
      textEnd.run e next) = some a :=
    takes_char '}' _ _ _ _ rfl (takes_textEnd _ _ _ _ rfl hnext)
  have hmem : c.behind inner ['}'] ∈ (star anything).outcomes c :=
    admits_loop_one (fun _ _ => rfl) (Nat.zero_le _) c hrest
  refine (run_eq_of_mem (fun d => (char '}').run (d.record index c) fun e => textEnd.run e next)
    hmem fun d hd => ?_).trans hend
  obtain ⟨w, t, -, hsplit, rfl⟩ := mem_outcomes_star_one.mp hd
  rw [hrest] at hsplit
  by_cases ht : t = ['}']
  · right
    subst ht
    rw [List.append_cancel_right hsplit]
  · -- Where the run stops earlier, the text does not end behind a brace.
    left
    refine run_eq_none (p := char '}' ++ textEnd) fun e he => ?_
    obtain ⟨f, hbrace, hend⟩ := mem_outcomes_append.mp he
    obtain ⟨hatEnd, -⟩ := mem_outcomes_here.mp hend
    have hbehind : t = '}' :: f.rest := (reads_of_mem_char hbrace).rest_eq
    rcases Bool.or_eq_true_iff.mp hatEnd with hnil | hfeed
    · exact absurd (hbehind.trans (by rw [List.isEmpty_iff.mp hnil])) ht
    · rw [hbehind, beq_iff_eq.mp hfeed] at hsplit
      have hlast := congrArg List.getLast? hsplit
      simp at hlast

theorem exists_matchStart_namespace (a : Alias) :
    ∃ m, namespaceClause.matchStart ('*' :: a.chars) = some m ∧ m.group 1 = a.name.chars := by
  let start : Cursor := ⟨none, 0, '*' :: a.chars, []⟩
  have hrun : namespaceClause.matchStart start.rest = (char '*').run start fun c =>
      (blanks1 ++ lit "as" ++ blanks1).run c fun d => name.run d fun e =>
        textEnd.run (e.record 1 d) fun f => some ⟨0, f.offset, start.rest, f.captures⟩ := rfl
  have hrest : a.chars = a.front.chars ++ asWord.chars ++ a.back.chars ++ (a.name.chars ++ []) := by
    simp [Alias.chars]
  exact ⟨_, hrun.trans (takes_char '*' _ _ _ _ rfl (a.takes_front [] _ _ _ _ hrest
    (takes_word_end a.name _ _ _ _ rfl (takes_textEnd _ _ _ _ rfl rfl)))), Capture.text_eq⟩

theorem exists_matchStart_named (l : NameList) :
    ∃ m, namedClause.matchStart l.chars = some m ∧ m.group 1 = l.inner := by
  let start : Cursor := ⟨none, 0, l.chars, []⟩
  have hrun : namedClause.matchStart start.rest = (char '{').run start fun c =>
      (star anything).run c fun d => (char '}').run (d.record 1 c) fun e =>
        textEnd.run e fun f => some ⟨0, f.offset, start.rest, f.captures⟩ := rfl
  exact ⟨_, hrun.trans (takes_char '{' _ _ _ _ rfl (run_inside rfl rfl)), Capture.text_eq⟩

/-- The first word of a clause, the comma behind it and the mark of what follows. -/
theorem takes_defaultAnd (gaps : Blanks × Blanks) {x : Char} (hx : isBlank x = false)
    (t : List Char) : (blanks ++ char ',' ++ blanks ++ char x).Takes
      (gaps.1.chars ++ [','] ++ gaps.2.chars ++ [x]) t :=
  (((takes_blanks gaps.1.blank (forall_head?_cons (by decide))).append (takes_char ',')).append
    (takes_blanks gaps.2.blank (forall_head?_cons hx))).append (takes_char x)

theorem takes_default (d : Word) (gaps : Blanks × Blanks) (t : List Char) :
    name.Takes d.chars (gaps.1.chars ++ ',' :: t) :=
  takes_word d (gaps.1.head_append (forall_head?_cons (by decide)))

theorem exists_matchStart_defaultAndNamed (d : Word) (gaps : Blanks × Blanks) (l : NameList) :
    ∃ m, defaultAndNamedClause.matchStart (Clause.both d gaps (.listed l)).chars = some m ∧
      m.group 1 = d.chars ∧ m.group 2 = l.inner := by
  let start : Cursor := ⟨none, 0, (Clause.both d gaps (.listed l)).chars, []⟩
  have hrun : defaultAndNamedClause.matchStart start.rest = name.run start fun c =>
      (blanks ++ char ',' ++ blanks ++ char '{').run (c.record 1 start) fun d =>
        (star anything).run d fun e => (char '}').run (e.record 2 d) fun f =>
          textEnd.run f fun g => some ⟨0, g.offset, start.rest, g.captures⟩ := rfl
  have hrest : gaps.1.chars ++ ',' :: (gaps.2.chars ++ l.chars) =
      gaps.1.chars ++ [','] ++ gaps.2.chars ++ ['{'] ++ (l.inner ++ ['}']) := by
    simp [NameList.chars]
  exact ⟨_, hrun.trans (takes_default d gaps _ _ _ _ _ rfl (takes_defaultAnd gaps (by decide)
    _ _ _ _ _ hrest (run_inside rfl rfl))), Capture.text_eq, Capture.text_eq⟩

theorem exists_matchStart_defaultAndNamespace (d : Word) (gaps : Blanks × Blanks) (a : Alias) :
    ∃ m, defaultAndNamespaceClause.matchStart (Clause.both d gaps (.all a)).chars = some m ∧
      m.group 1 = d.chars ∧ m.group 2 = a.name.chars := by
  let start : Cursor := ⟨none, 0, (Clause.both d gaps (.all a)).chars, []⟩
  have hrun : defaultAndNamespaceClause.matchStart start.rest = name.run start fun c =>
      (blanks ++ char ',' ++ blanks ++ char '*').run (c.record 1 start) fun d =>
        (blanks1 ++ lit "as" ++ blanks1).run d fun e => name.run e fun f =>
          textEnd.run (f.record 2 e) fun g => some ⟨0, g.offset, start.rest, g.captures⟩ := rfl
  have hrest : gaps.1.chars ++ ',' :: (gaps.2.chars ++ '*' :: a.chars) =
      gaps.1.chars ++ [','] ++ gaps.2.chars ++ ['*'] ++
        (a.front.chars ++ asWord.chars ++ a.back.chars ++ (a.name.chars ++ [])) := by
    simp [Alias.chars]
  exact ⟨_, hrun.trans (takes_default d gaps _ _ _ _ _ rfl (takes_defaultAnd gaps (by decide)
    _ _ _ _ _ hrest (a.takes_front [] _ _ _ _ rfl (takes_word_end a.name _ _ _ _ rfl
      (takes_textEnd _ _ _ _ rfl rfl))))), Capture.text_eq, Capture.text_eq⟩

theorem startsWith_namespaceClause : StartsWith (· == '*') namespaceClause :=
  (((((startsWith_char (by decide)).append _).append _).append _).append _).append _

theorem startsWith_namedClause : StartsWith (· == '{') namedClause :=
  (((startsWith_char (by decide)).append _).append _).append _

theorem begins_defaultAndNamed : Begins (Continues '{') defaultAndNamedClause :=
  (((begins_defaultAnd '{').append _).append _).append _

theorem begins_defaultAndNamespace : Begins (Continues '*') defaultAndNamespaceClause :=
  (((((begins_defaultAnd '*').append _).append _).append _).append _).append _

/-- Behind the word `type` no comma follows. -/
theorem not_continues_of_head {x : Char} (h : ∀ c ∈ (afterName w).head?, c ≠ ',') :
    ¬ Continues x w := by
  rintro ⟨b, r, hname, -⟩
  rw [hname] at h
  exact h ',' rfl rfl

/-- The first character of a group is none of a name, of white space or between names. -/
theorem Group.mark_class (g : Group) :
    isWord g.mark = false ∧ isBlank g.mark = false ∧ g.mark ≠ ',' ∧ g.mark ≠ '\n' := by
  cases g <;> rw [Group.mark] <;> decide

/-- What is read of a clause that names a type, or that is a single name. -/
theorem clauseBindings_of_word {n : Word} (ht : ∀ c ∈ (afterName (n.chars ++ t)).head?, c ≠ ',') :
    clauseBindings package (n.chars ++ t) =
      if !beginsWith "type ".toList (n.chars ++ t) && soleName.matchesStart (n.chars ++ t) then
        [⟨String.ofList (n.chars ++ t), package, .default, none⟩] else [] := by
  -- A word is no mark of a group, and no group follows the comma that does not stand there.
  rw [clauseBindings, startsWith_namespaceClause.matchStart_eq_none (n.head_ne (by decide) t),
    begins_defaultAndNamed.matchStart_eq_none (not_continues_of_head ht),
    begins_defaultAndNamespace.matchStart_eq_none (not_continues_of_head ht),
    startsWith_namedClause.matchStart_eq_none (n.head_ne (by decide) t)]

theorem afterName_both (d : Word) (gaps : Blanks × Blanks) (g : Group) :
    afterName (Clause.both d gaps g).chars = ',' :: (gaps.2.chars ++ g.chars) := by
  rw [Clause.chars, afterName_append d.word (gaps.1.head_append (forall_head?_cons (by decide))),
    stripStart_append gaps.1.blank, stripStart_eq_self (forall_head?_cons (by decide))]

/-- Only the mark of the group stands behind the comma. -/
theorem not_continues_both (d : Word) (gaps : Blanks × Blanks) {g : Group} {x : Char}
    (hx : x ≠ g.mark) (hblank : isBlank x = false) :
    ¬ Continues x (Clause.both d gaps g).chars := by
  rintro ⟨b, r, hname, hb⟩
  obtain ⟨t, ht⟩ := g.exists_chars_eq
  rw [afterName_both, ht] at hname
  have hbehind := congrArg (List.dropWhile isBlank) (List.cons.inj hname).2
  rw [dropWhile_append gaps.2.blank (forall_head?_cons g.mark_class.2.1),
    dropWhile_append hb (forall_head?_cons hblank)] at hbehind
  exact hx (List.cons.inj hbehind).1.symm

theorem clauseBindings_group (g : Group) : clauseBindings package g.chars = g.bindings package := by
  cases g with
  | all a =>
    obtain ⟨m, hm, hname⟩ := exists_matchStart_namespace a
    rw [Group.chars, clauseBindings, hm]
    simp only [Match.name, hname]
    rfl
  | listed l =>
    obtain ⟨m, hm, hinner⟩ := exists_matchStart_named l
    have hname : ∀ c ∈ (afterName l.chars).head?, c ≠ ',' := forall_head?_cons (by decide)
    have hfirst : namespaceClause.matchStart l.chars = none :=
      startsWith_namespaceClause.matchStart_eq_none
        (forall_head?_cons (x := '{') (t := l.inner ++ ['}']) (by decide))
    rw [Group.chars, clauseBindings, hfirst,
      begins_defaultAndNamed.matchStart_eq_none (not_continues_of_head hname),
      begins_defaultAndNamespace.matchStart_eq_none (not_continues_of_head hname), hm]
    simp only [hinner, namedBindings_inner]
    rfl

theorem clauseBindings_both (d : Word) (gaps : Blanks × Blanks) (g : Group) :
    clauseBindings package (Clause.both d gaps g).chars =
      (Clause.both d gaps g).bindings package := by
  have hfirst : namespaceClause.matchStart (Clause.both d gaps g).chars = none :=
    startsWith_namespaceClause.matchStart_eq_none (d.head_ne (by decide) _)
  rw [clauseBindings, hfirst]
  cases g with
  | all a =>
    obtain ⟨m, hm, hdefault, hname⟩ := exists_matchStart_defaultAndNamespace d gaps a
    have hmark : '{' ≠ (Group.all a).mark := by rw [Group.mark]; decide
    rw [begins_defaultAndNamed.matchStart_eq_none (not_continues_both d gaps hmark (by decide)), hm]
    simp only [Match.name, hdefault, hname]
    rfl
  | listed l =>
    obtain ⟨m, hm, hdefault, hinner⟩ := exists_matchStart_defaultAndNamed d gaps l
    rw [hm]
    simp only [Match.name, hdefault, hinner, namedBindings_inner]
    rfl

/-- What imports types only binds nothing, whatever it names. -/
theorem clauseBindings_typed {b r : List Char} (hb : ∀ c ∈ b, isBlank c = true)
    (hword : ∀ c ∈ (b ++ r).head?, isWord c = false)
    (hr : ∀ c ∈ r.head?, isBlank c = false ∧ c ≠ ',')
    (hsole : soleName.matchesStart (typeWord.chars ++ (b ++ r)) = false) :
    clauseBindings package (typeWord.chars ++ (b ++ r)) = [] := by
  have hname : afterName (typeWord.chars ++ (b ++ r)) = r := by
    rw [afterName_append typeWord.word hword, stripStart_append hb,
      stripStart_eq_self fun c hc => (hr c hc).1]
  have hcomma : ∀ c ∈ (afterName (typeWord.chars ++ (b ++ r))).head?, c ≠ ',' := by
    rw [hname]
    exact fun c hc => (hr c hc).2
  rw [clauseBindings_of_word hcomma, hsole, Bool.and_false]
  rfl

/-- **What is read of a clause is what it binds.** -/
theorem clauseBindings_chars (c : Clause) :
    clauseBindings package c.chars = c.bindings package := by
  cases c with
  | one d =>
    have hname : ∀ c ∈ (afterName (d.chars ++ [])).head?, c ≠ ',' := by
      rw [show afterName (d.chars ++ []) = [] from afterName_append d.word nofun]
      exact nofun
    rw [Clause.chars, ← List.append_nil d.chars, clauseBindings_of_word hname, List.append_nil,
      not_begins_type d, matchesStart_soleName]
    rfl
  | group g => exact clauseBindings_group g
  | both d gaps g => exact clauseBindings_both d gaps g
  | typeOne gap d =>
    have hcomma : ∀ c ∈ d.chars.head?, c ≠ ',' := by
      rintro c hc rfl
      exact absurd (d.word _ (List.mem_of_head? hc)) (by decide)
    exact clauseBindings_typed gap.blank (gap.head_append _)
      (fun c hc => ⟨d.head_chars c hc, hcomma c hc⟩)
      (typeOnly_soleName gap (fun c hc => d.word c (List.mem_of_getLast? hc)) d.ne_nil)
  | typeGroup gap g =>
    obtain ⟨t, ht⟩ := g.exists_chars_eq
    obtain ⟨hword, hblank, hcomma, hfeed⟩ := g.mark_class
    have hsole : soleName.matchesStart (typeWord.chars ++ (gap.chars ++ g.chars)) = false := by
      by_contra h
      have hname : Pattern.name.ReadsOnly (isWord · = true) := fun _ h => h
      rcases forall_mem_of_matchesStart hname (Bool.not_eq_false _ ▸ h) g.mark (by simp [ht])
        with h | h
      · rw [hword] at h
        cases h
      · exact hfeed h
    refine clauseBindings_typed gap.blank ?_ (ht ▸ forall_head?_cons ⟨hblank, hcomma⟩) hsole
    rw [ht]
    exact gap.head_append (forall_head?_cons hword)

/-! ### What clauses are written with -/

theorem isPatternChar_of_isPhrase (h : IsPhrase w) : ∀ c ∈ w, isPatternChar c = true := by
  intro c hc
  rw [isPatternChar]
  rcases h c hc with hword | hblank
  · rw [hword, Bool.true_or, Bool.true_or]
  · rw [hblank, Bool.or_true, Bool.true_or]

theorem Group.isPatternChar (g : Group) : ∀ c ∈ g.chars, isPatternChar c = true := by
  cases g with
  | all a => exact List.forall_mem_cons.mpr ⟨by decide, isPatternChar_of_isPhrase a.isPhrase⟩
  | listed l =>
    have hinner : ∀ c ∈ l.inner, Packages.isPatternChar c = true :=
      forall_mem_intercalate (by decide) fun cell hcell =>
        isPatternChar_of_isPhrase (l.isPhrase_cell hcell)
    exact List.forall_mem_cons.mpr ⟨by decide, List.forall_mem_append.mpr ⟨hinner, by decide⟩⟩

/-- **A clause is written with few characters**: there are no quotation marks in it. -/
theorem Clause.isPatternChar (c : Clause) : ∀ x ∈ c.chars, isPatternChar x = true := by
  have hblanks (b : Blanks) : ∀ x ∈ b.chars, Packages.isPatternChar x = true :=
    isPatternChar_of_isPhrase fun x hx => Or.inr (b.blank x hx)
  have hword (n : Word) : ∀ x ∈ n.chars, Packages.isPatternChar x = true :=
    isPatternChar_of_isPhrase (isPhrase_word n)
  have hgap (g : Gap) : ∀ x ∈ g.chars, Packages.isPatternChar x = true :=
    isPatternChar_of_isPhrase (isPhrase_gap g)
  cases c with
  | one d => exact hword d
  | group g => exact g.isPatternChar
  | both d gaps g =>
    simp only [Clause.chars, List.forall_mem_append, List.forall_mem_cons]
    exact ⟨hword d, hblanks gaps.1, by decide, hblanks gaps.2, g.isPatternChar⟩
  | typeOne gap d =>
    simp only [Clause.chars, List.forall_mem_append]
    exact ⟨hword typeWord, hgap gap, hword d⟩
  | typeGroup gap g =>
    simp only [Clause.chars, List.forall_mem_append]
    exact ⟨hword typeWord, hblanks gap, g.isPatternChar⟩

/-- A clause that begins and ends in no white space, as it stands behind another text. -/
theorem Group.getLast_append (g : Group) (v : List Char) :
    ∀ c ∈ (v ++ g.chars).getLast?, isBlank c = false := by
  cases g with
  | all a =>
    rw [Group.chars, List.append_cons]
    exact fun c hc => isBlank_eq_false_of_isWord (a.getLast_append _ c hc)
  | listed l =>
    have hlast : (v ++ l.chars).getLast? = some '}' := by
      rw [NameList.chars, ← List.cons_append, ← List.append_assoc, List.getLast?_concat]
    rw [Group.chars, hlast]
    exact fun c hc => Option.some.inj hc ▸ by decide

theorem Clause.ends (c : Clause) : c.chars ≠ [] ∧ (∀ x ∈ c.chars.head?, isBlank x = false) ∧
    ∀ x ∈ c.chars.getLast?, isBlank x = false := by
  have hword (n : Word) (v : List Char) : ∀ x ∈ (v ++ n.chars).getLast?, isBlank x = false :=
    fun x hx => isBlank_eq_false_of_isWord (n.getLast_append v x hx)
  cases c with
  | one d =>
    exact ⟨d.ne_nil, d.head_chars, hword d []⟩
  | group g =>
    obtain ⟨t, ht⟩ := g.exists_chars_eq
    refine ⟨by simp [Clause.chars, ht], ?_, g.getLast_append []⟩
    rw [Clause.chars, ht]
    exact forall_head?_cons g.mark_class.2.1
  | both d gaps g =>
    refine ⟨by simp [Clause.chars, d.ne_nil], d.head_append _, ?_⟩
    rw [Clause.chars, List.append_cons, ← List.append_assoc, ← List.append_assoc,
      ← List.append_assoc]
    exact g.getLast_append _
  | typeOne gap d =>
    refine ⟨by simp [Clause.chars, d.ne_nil], typeWord.head_append _, ?_⟩
    rw [Clause.chars, ← List.append_assoc]
    exact hword d _
  | typeGroup gap g =>
    refine ⟨by simp [Clause.chars, typeWord.ne_nil], typeWord.head_append _, ?_⟩
    rw [Clause.chars, ← List.append_assoc]
    exact g.getLast_append _

end Clauses

end PlanAudit.Packages
