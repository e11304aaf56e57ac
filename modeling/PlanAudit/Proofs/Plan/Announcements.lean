import Mathlib.Data.List.Infix
import PlanAudit.Proofs.Paths.Sections
import PlanAudit.Proofs.Pattern.AnyCase
import PlanAudit.Types.Mentions

/-!
# Announcements of longer names

The phrases that announce a file or a type do not look at what stands behind the name.  So a name
that stands in a plan only as the beginning of longer names is taken to be announced exactly if one
of the longer names is; of the declarations only those are taken for the shorter name in which what
the type extends follows without a blank between.

## Main definitions

* `Prolongs longer name`: the longer name is the name with word characters behind it
* `OnlyContinued name plan`: the name stands in the plan only where a word character follows
* `Types.gluedPatterns`: the declarations in which what is extended follows without a blank

## Main results

* `Paths.exists_announcement_iff`, `Types.exists_announcement_iff`: a phrase for the name is one for
  a longer name
* `Paths.Title.exists_opens_iff`: so is a list of new files
* `exempted_iff`: which names are exempted from checking
-/

namespace PlanAudit

open Text Pattern

/-- The longer name is the name with word characters behind it. -/
def Prolongs (longer name : String) : Prop :=
  ∃ w, w ≠ [] ∧ (∀ c ∈ w, isWord c = true) ∧ longer.toList = name.toList ++ w

/-- Wherever the name stands in the plan, in whatever case, a word character follows it. -/
def OnlyContinued (name : String) (plan : List Char) : Prop :=
  ∀ u v t, plan = u ++ (v ++ t) → Spells v name.toList → t.head?.any isWord = true

section Names

variable {name longer : String} {plan v r : List Char} {c : Cursor}

/-- It is enough to look at the end of the plan from each position on. -/
theorem onlyContinued_iff : OnlyContinued name plan ↔ ∀ t ∈ plan.tails,
    Spells (t.take name.toList.length) name.toList →
      (t.drop name.toList.length).head?.any isWord = true := by
  constructor
  · intro h t ht hspells
    obtain ⟨u, hu⟩ := (List.mem_tails _ _).mp ht
    exact h u _ _ (by rw [List.take_append_drop, hu]) hspells
  · intro h u v t hsplit hspells
    have hpiece := h (v ++ t) ((List.mem_tails _ _).mpr ⟨u, hsplit.symm⟩)
    rw [← hspells.length_eq, List.take_left, List.drop_left] at hpiece
    exact hpiece hspells

instance : Decidable (OnlyContinued name plan) := decidable_of_iff _ onlyContinued_iff.symm

theorem OnlyContinued.exists_cons (h : OnlyContinued name plan) (hc : c.rest <:+ plan)
    (hrest : c.rest = v ++ r) (hv : Spells v name.toList) :
    ∃ x s, r = x :: s ∧ isWord x = true := by
  obtain ⟨u, hu⟩ := hc
  have hword := h u v r (by rw [← hu, hrest]) hv
  cases r with
  | nil => cases hword
  | cons x s => exact ⟨x, s, rfl, hword⟩

/-- A spelling of the name and a word character behind it spell a longer name. -/
theorem exists_prolongs (hv : Spells v name.toList) {x : Char} (hx : isWord x = true) :
    ∃ longer, Prolongs longer name ∧ Spells (v ++ [x]) longer.toList := by
  refine ⟨String.ofList (name.toList ++ [x]), ⟨[x], List.cons_ne_nil x [], ?_, ?_⟩, ?_⟩
  · simpa using hx
  · exact String.toList_ofList
  · rw [String.toList_ofList]
    exact hv.append (spells_refl [x])

/-- A spelling of a longer name starts with one of the name, and goes on on the same line. -/
theorem Prolongs.exists_append (h : Prolongs longer name) (hv : Spells v longer.toList) :
    ∃ u w, v = u ++ w ∧ Spells u name.toList ∧ ∀ x ∈ w, (x != '\n') = true := by
  obtain ⟨s, -, hs, heq⟩ := h
  rw [heq] at hv
  obtain ⟨u, w, rfl, hu, hw⟩ := hv.exists_append
  refine ⟨u, w, rfl, hu, fun x hx => ?_⟩
  obtain ⟨c, hc, hsame⟩ := hw.exists_sameLetter hx
  exact bne_iff_ne.mpr (ne_lineFeed_of_sameLetter (hs c hc) hsame)

end Names

/-! ## Phrases that hold a name -/

section Phrases

variable {name : String} {plan : List Char} {c d : Cursor}

/-- A phrase occurs in the plan if it does from one of the positions on. -/
theorem occursIn_iff_exists_prolongs {P : String → Pattern}
    (h : ∀ c : Cursor, c.rest <:+ plan → ((∃ d, d ∈ (P name).outcomes c) ↔
      ∃ longer, Prolongs longer name ∧ ∃ d, d ∈ (P longer).outcomes c)) :
    (P name).occursIn plan = true ↔
      ∃ longer, Prolongs longer name ∧ (P longer).occursIn plan = true := by
  constructor
  · intro hname
    obtain ⟨u, t, d, hsplit, hd⟩ := occursIn_iff.mp hname
    obtain ⟨longer, hlonger, e, he⟩ :=
      (h ⟨u.getLast?, u.length, t, []⟩ ⟨u, hsplit.symm⟩).mp ⟨d, hd⟩
    exact ⟨longer, hlonger, occursIn_iff.mpr ⟨u, t, e, hsplit, he⟩⟩
  · rintro ⟨longer, hlonger, hoccurs⟩
    obtain ⟨u, t, d, hsplit, hd⟩ := occursIn_iff.mp hoccurs
    obtain ⟨e, he⟩ :=
      (h ⟨u.getLast?, u.length, t, []⟩ ⟨u, hsplit.symm⟩).mpr ⟨longer, hlonger, d, hd⟩
    exact occursIn_iff.mpr ⟨u, t, e, hsplit, he⟩

/-- **A phrase that ends with the name** is one that ends with a longer name. -/
theorem occursIn_append_litAnyCase_iff (h : OnlyContinued name plan) (front : Pattern) :
    (front ++ litAnyCase name).occursIn plan = true ↔
      ∃ longer, Prolongs longer name ∧ (front ++ litAnyCase longer).occursIn plan = true := by
  refine occursIn_iff_exists_prolongs (P := fun s => front ++ litAnyCase s) fun c hc => ?_
  constructor
  · rintro ⟨d, hd⟩
    obtain ⟨e, he, hde⟩ := mem_outcomes_append.mp hd
    obtain ⟨v, t, hv, hrest, -⟩ := mem_outcomes_litAnyCase.mp hde
    obtain ⟨x, s, rfl, hword⟩ :=
      h.exists_cons ((rest_suffix_of_mem_outcomes he).trans hc) hrest hv
    obtain ⟨longer, hlonger, hspells⟩ := exists_prolongs hv hword
    -- The longer name reads the word character too, and ends the phrase like the shorter one.
    refine ⟨longer, hlonger, e.behind (v ++ [x]) s, mem_outcomes_append.mpr ⟨e, he, ?_⟩⟩
    exact mem_outcomes_litAnyCase.mpr ⟨v ++ [x], s, hspells, by simp [hrest], rfl⟩
  · rintro ⟨longer, hlonger, d, hd⟩
    obtain ⟨e, he, hde⟩ := mem_outcomes_append.mp hd
    obtain ⟨v, t, hv, hrest, -⟩ := mem_outcomes_litAnyCase.mp hde
    obtain ⟨u, w, rfl, hu, -⟩ := hlonger.exists_append hv
    refine ⟨e.behind u (w ++ t), mem_outcomes_append.mpr ⟨e, he, ?_⟩⟩
    exact mem_outcomes_litAnyCase.mpr ⟨u, w ++ t, hu, by simp [hrest], rfl⟩

end Phrases

/-! ## Files -/

namespace Paths

variable {name : String} {plan : List Char} {c d : Cursor}

/-- From the name to a parenthesis on the same line it is the same way as from a longer name, since
what continues the name is no parenthesis. -/
theorem mem_outcomes_parenthesis_iff (h : OnlyContinued name plan) (hc : c.rest <:+ plan) :
    d ∈ (litAnyCase name ++ restOfLine ++ char '(').outcomes c ↔ ∃ longer, Prolongs longer name ∧
      d ∈ (litAnyCase longer ++ restOfLine ++ char '(').outcomes c := by
  constructor
  · intro hd
    obtain ⟨e, he, hopen⟩ := mem_outcomes_append.mp hd
    obtain ⟨f, hf, hline⟩ := mem_outcomes_append.mp he
    obtain ⟨v, t, hv, hrest, rfl⟩ := mem_outcomes_litAnyCase.mp hf
    obtain ⟨w, r, hw, hsplit, rfl⟩ := mem_outcomes_star_one.mp hline
    obtain ⟨x, s, rfl, hword⟩ := h.exists_cons hc hrest hv
    cases w with
    | nil =>
      -- Nothing is read up to the parenthesis, so that it would be the word character.
      obtain ⟨y, ys, hy, hparen, -⟩ := mem_outcomes_one.mp hopen
      obtain ⟨rfl, -⟩ := List.cons.inj (hsplit.trans hy)
      rw [beq_iff_eq.mp hparen] at hword
      exact absurd hword (by decide)
    | cons z w =>
      obtain ⟨rfl, rfl⟩ := List.cons.inj hsplit
      obtain ⟨longer, hlonger, hspells⟩ := exists_prolongs hv hword
      -- The word character goes over from the rest of the line to the name.
      refine ⟨longer, hlonger, mem_outcomes_append.mpr ⟨_, mem_outcomes_append.mpr
        ⟨c.behind (v ++ [x]) (w ++ r), ?_, ?_⟩, hopen⟩⟩
      · exact mem_outcomes_litAnyCase.mpr ⟨v ++ [x], w ++ r, hspells, by simp [hrest], rfl⟩
      · refine mem_outcomes_star_one.mpr
          ⟨w, r, fun y hy => hw y (List.mem_cons_of_mem x hy), rfl, ?_⟩
        rw [Cursor.behind_behind, Cursor.behind_behind, List.append_assoc]
        rfl
  · rintro ⟨longer, hlonger, hd⟩
    obtain ⟨e, he, hopen⟩ := mem_outcomes_append.mp hd
    obtain ⟨f, hf, hline⟩ := mem_outcomes_append.mp he
    obtain ⟨v, t, hv, hrest, rfl⟩ := mem_outcomes_litAnyCase.mp hf
    obtain ⟨w, r, hw, rfl, rfl⟩ := mem_outcomes_star_one.mp hline
    obtain ⟨u, s, rfl, hu, hs⟩ := hlonger.exists_append hv
    -- What continues the name goes over to the rest of the line.
    refine mem_outcomes_append.mpr ⟨_, mem_outcomes_append.mpr
      ⟨c.behind u (s ++ (w ++ r)), ?_, ?_⟩, hopen⟩
    · exact mem_outcomes_litAnyCase.mpr ⟨u, _, hu, by simp [hrest], rfl⟩
    · refine mem_outcomes_star_one.mpr
        ⟨s ++ w, r, fun y hy => ?_, (List.append_assoc _ _ _).symm, ?_⟩
      · exact (List.mem_append.mp hy).elim (hs y) (hw y)
      · rw [Cursor.behind_behind, Cursor.behind_behind, List.append_assoc]

/-- The name, and behind it on the same line in parentheses a word for creating. -/
def remark (name : String) : Pattern :=
  litAnyCase name ++ restOfLine ++ char '(' ++ blanks ++
    oneOfTextsAnyCase ["create", "new", "add"]

theorem occursIn_remark_iff (h : OnlyContinued name plan) :
    (remark name).occursIn plan = true ↔
      ∃ longer, Prolongs longer name ∧ (remark longer).occursIn plan = true := by
  refine occursIn_iff_exists_prolongs fun c hc => ?_
  constructor
  · rintro ⟨d, hd⟩
    obtain ⟨e, he, hword⟩ := mem_outcomes_append.mp hd
    obtain ⟨f, hf, hgap⟩ := mem_outcomes_append.mp he
    obtain ⟨longer, hlonger, hf⟩ := (mem_outcomes_parenthesis_iff h hc).mp hf
    exact ⟨longer, hlonger, d, mem_outcomes_append.mpr
      ⟨e, mem_outcomes_append.mpr ⟨f, hf, hgap⟩, hword⟩⟩
  · rintro ⟨longer, hlonger, d, hd⟩
    obtain ⟨e, he, hword⟩ := mem_outcomes_append.mp hd
    obtain ⟨f, hf, hgap⟩ := mem_outcomes_append.mp he
    have hname := (mem_outcomes_parenthesis_iff h hc).mpr ⟨longer, hlonger, hf⟩
    exact ⟨d, mem_outcomes_append.mpr ⟨e, mem_outcomes_append.mpr ⟨f, hname, hgap⟩, hword⟩⟩

/-- The remark that is a word in parentheses is one of those that start with the word. -/
theorem occursIn_remark_of_closed
    (h : (litAnyCase name ++ loop true 0 (some 20) (one fun c => c != ')' && c != '\n') ++
      char '(' ++ oneOfTextsAnyCase ["new", "create"] ++ char ')').occursIn plan = true) :
    (remark name).occursIn plan = true := by
  obtain ⟨u, t, d, hsplit, hd⟩ := occursIn_iff.mp h
  obtain ⟨e, he, -⟩ := mem_outcomes_append.mp hd
  obtain ⟨f, hf, hword⟩ := mem_outcomes_append.mp he
  obtain ⟨g, hg, hopen⟩ := mem_outcomes_append.mp hf
  obtain ⟨b, hb, hline⟩ := mem_outcomes_append.mp hg
  -- The few characters between name and parenthesis stand on one line.
  have hchars : (loop true 0 (some 20) (one fun c => c != ')' && c != '\n')).ReadsOnly
      (· ≠ '\n') := by
    intro x hx
    exact bne_iff_ne.mp (Bool.and_eq_true_iff.mp hx).2
  obtain ⟨w, hrest, hbehind, hw⟩ := exists_eq_behind (by trivial) hchars b g hline
  have hg' : g ∈ restOfLine.outcomes b :=
    mem_outcomes_star_one.mpr ⟨w, g.rest, fun x hx => bne_iff_ne.mpr (hw x hx), hrest, hbehind⟩
  have hgap : f ∈ blanks.outcomes f :=
    mem_outcomes_star_one.mpr ⟨[], f.rest, by simp, rfl, (Cursor.behind_nil rfl).symm⟩
  have hword' : e ∈ (oneOfTextsAnyCase ["create", "new", "add"]).outcomes f := by
    obtain ⟨s, hs, hes⟩ := mem_outcomes_oneOfTextsAnyCase.mp hword
    refine mem_outcomes_oneOfTextsAnyCase.mpr ⟨s, ?_, hes⟩
    have hsubset : ["new", "create"] ⊆ ["create", "new", "add"] := by decide
    exact hsubset hs
  refine occursIn_iff.mpr ⟨u, t, e, hsplit, mem_outcomes_append.mpr ⟨f, ?_, hword'⟩⟩
  refine mem_outcomes_append.mpr ⟨f, mem_outcomes_append.mpr ⟨g, ?_, hopen⟩, hgap⟩
  exact mem_outcomes_append.mpr ⟨b, hb, hg'⟩

/-- The phrases that end with the name of a file. -/
def phrasesBefore : List Pattern :=
  [createVerb ++ blanks1 ++ opt (char '\x60'),
    char '(' ++ blanks ++ oneOfTextsAnyCase ["create", "new"] ++ restOfLine]

theorem exists_announcementPatterns_iff :
    (∃ p ∈ announcementPatterns name, p.occursIn plan = true) ↔
      (∃ front ∈ phrasesBefore, (front ++ litAnyCase name).occursIn plan = true) ∨
        (remark name).occursIn plan = true := by
  simp only [announcementPatterns, phrasesBefore, List.exists_mem_cons_iff, List.not_mem_nil,
    false_and, exists_false, or_false]
  constructor
  · rintro (hverb | hremark | hparen | hclosed)
    · exact Or.inl (Or.inl hverb)
    · exact Or.inr hremark
    · exact Or.inl (Or.inr hparen)
    · exact Or.inr (occursIn_remark_of_closed hclosed)
  · rintro ((hverb | hparen) | hremark)
    · exact Or.inl hverb
    · exact Or.inr (Or.inr (Or.inl hparen))
    · exact Or.inr (Or.inl hremark)

/-- **A phrase that announces the file** announces a longer name. -/
theorem exists_announcement_iff (h : OnlyContinued name plan) :
    (∃ p ∈ announcementPatterns name, p.occursIn plan = true) ↔
      ∃ longer, Prolongs longer name ∧
        ∃ p ∈ announcementPatterns longer, p.occursIn plan = true := by
  simp only [exists_announcementPatterns_iff]
  rw [occursIn_remark_iff h]
  simp only [occursIn_append_litAnyCase_iff h]
  constructor
  · rintro (⟨front, hfront, longer, hlonger, hoccurs⟩ | ⟨longer, hlonger, hoccurs⟩)
    · exact ⟨longer, hlonger, Or.inl ⟨front, hfront, hoccurs⟩⟩
    · exact ⟨longer, hlonger, Or.inr hoccurs⟩
  · rintro ⟨longer, hlonger, ⟨front, hfront, hoccurs⟩ | hoccurs⟩
    · exact Or.inl ⟨front, hfront, longer, hlonger, hoccurs⟩
    · exact Or.inr ⟨longer, hlonger, hoccurs⟩

/-! ### Lists of new files -/

theorem startsWith_heading : StartsWith (· == '#') heading := by
  have hmark : StartsWith (· == '#') (char '#') := startsWith_char (by decide)
  exact (startsWith_here_append _ (startsWith_loop hmark)).append _

/-- A heading does not start in the middle of a name. -/
theorem start_ne_of_isWord {next : Match} (h : heading.StandsIn plan next) {u t : List Char}
    {x : Char} (hsplit : plan = u ++ x :: t) (hx : isWord x = true) : u.length ≠ next.start := by
  intro hstart
  obtain ⟨d, hd, -⟩ := exists_outcome_of_matchHere (h.matchHere_eq hsplit hstart)
  have hmark : (x == '#') = false := by
    refine beq_eq_false_iff_ne.mpr ?_
    rintro rfl
    exact absurd hx (by decide)
  exact startsWith_heading.notMem_outcomes rfl hmark hd

/-- **A list of new files** that holds the name holds a longer one. -/
theorem Title.exists_opens_iff (h : OnlyContinued name plan) (title : Title plan) :
    title.Opens name ↔ ∃ longer, Prolongs longer name ∧ title.Opens longer := by
  constructor
  · rintro ⟨u, t, hsplit, hu, hnext⟩
    have hhead := h u name.toList t hsplit (spells_refl _)
    obtain ⟨x, t, rfl⟩ : ∃ x s, t = x :: s := by
      cases t with
      | nil => cases hhead
      | cons x s => exact ⟨x, s, rfl⟩
    refine ⟨String.ofList (name.toList ++ [x]),
      ⟨[x], List.cons_ne_nil x [], by simpa using hhead, String.toList_ofList⟩, u, t, ?_, hu,
      fun next hstands hback => ?_⟩
    · rw [String.toList_ofList, hsplit, List.append_assoc]
      rfl
    · -- The list does not end behind the name, because no heading starts there.
      have hcut : plan = (u ++ name.toList) ++ x :: t := by rw [hsplit, List.append_assoc]
      have hne := start_ne_of_isWord hstands hcut hhead
      have hle := hnext next hstands hback
      rw [List.length_append] at hne
      rw [String.toList_ofList, List.length_append, List.length_singleton]
      omega
  · rintro ⟨longer, ⟨w, -, -, hlonger⟩, u, t, hsplit, hu, hnext⟩
    rw [hlonger] at hsplit hnext
    refine ⟨u, w ++ t, by rw [hsplit, List.append_assoc], hu, fun next hstands hback => ?_⟩
    have hle := hnext next hstands hback
    rw [List.length_append] at hle
    omega

/-- **A file is announced** exactly if a longer name is. -/
theorem hasCreateSignal_iff_exists_prolongs (h : OnlyContinued name plan) :
    hasCreateSignal name plan = true ↔
      ∃ longer, Prolongs longer name ∧ hasCreateSignal longer plan = true := by
  simp only [hasCreateSignal_iff]
  rw [exists_announcement_iff h]
  simp only [Title.exists_opens_iff h]
  constructor
  · rintro (⟨longer, hlonger, hoccurs⟩ | ⟨first, hfirst, longer, hlonger, hopens⟩)
    · exact ⟨longer, hlonger, Or.inl hoccurs⟩
    · exact ⟨longer, hlonger, Or.inr ⟨first, hfirst, hopens⟩⟩
  · rintro ⟨longer, hlonger, hoccurs | ⟨first, hfirst, hopens⟩⟩
    · exact Or.inl ⟨longer, hlonger, hoccurs⟩
    · exact Or.inr ⟨first, hfirst, longer, hlonger, hopens⟩

end Paths

/-! ## Types -/

namespace Types

variable {name : String} {plan : List Char} {c d : Cursor} {front q r : Pattern}

/-- What stands in front of the name in the phrases that announce a type. -/
def phrasesBefore : List Pattern :=
  let article := opt (litAnyCase "a" ++ blanks1) ++ opt (litAnyCase "new" ++ blanks1)
  let kind := declarationKind ++ blanks1 ++ opt (char '\x60')
  [litAnyCase "create" ++ blanks1 ++ article ++ kind,
    litAnyCase "define" ++ blanks1 ++ article ++ kind,
    litAnyCase "add" ++ blanks1 ++ article ++ kind, litAnyCase "new" ++ blanks1 ++ kind]

theorem exists_announcementPatterns_iff :
    (∃ p ∈ announcementPatterns name, p.occursIn plan = true) ↔
      ∃ front ∈ phrasesBefore, (front ++ litAnyCase name).occursIn plan = true := by
  have hassoc : ∀ p q : Pattern, (p ++ (q ++ litAnyCase name)).occursIn plan =
      (p ++ q ++ litAnyCase name).occursIn plan :=
    fun p q => occursIn_congr fun c => (outcomes_append_assoc p q _ c).symm
  simp only [announcementPatterns, phrasesBefore, List.exists_mem_cons_iff, List.not_mem_nil,
    false_and, exists_false, or_false, hassoc]

/-- **A phrase that announces the type** announces a longer name. -/
theorem exists_announcement_iff (h : OnlyContinued name plan) :
    (∃ p ∈ announcementPatterns name, p.occursIn plan = true) ↔
      ∃ longer, Prolongs longer name ∧
        ∃ p ∈ announcementPatterns longer, p.occursIn plan = true := by
  simp only [exists_announcementPatterns_iff, occursIn_append_litAnyCase_iff h]
  constructor
  · rintro ⟨front, hfront, longer, hlonger, hoccurs⟩
    exact ⟨longer, hlonger, front, hfront, hoccurs⟩
  · rintro ⟨longer, hlonger, front, hfront, hoccurs⟩
    exact ⟨front, hfront, longer, hlonger, hoccurs⟩

/-! ### Declarations -/

/-- The declarations in which what the type extends or implements follows its name without a blank
between. -/
def gluedPatterns (type : String) : List Pattern :=
  [lit "interface" ++ blanks1 ++ lit type ++ lit "extends",
    lit "class" ++ blanks1 ++ lit type ++ (lit "extends" ||| lit "implements")]

/-- A word character stands behind the name. -/
theorem exists_cons_of_mem (h : OnlyContinued name plan) (hc : c.rest <:+ plan)
    (hd : d ∈ (front ++ lit name).outcomes c) : ∃ x s, d.rest = x :: s ∧ isWord x = true := by
  obtain ⟨e, he, hlit⟩ := mem_outcomes_append.mp hd
  exact h.exists_cons ((rest_suffix_of_mem_outcomes he).trans hc)
    (reads_of_mem_lit hlit).rest_eq (spells_refl _)

/-- What does not start with a word character does not follow the name. -/
theorem not_occursIn_of_startsWith (h : OnlyContinued name plan)
    (hq : StartsWith (!isWord ·) q) : (front ++ lit name ++ q).occursIn plan ≠ true := by
  intro hoccurs
  obtain ⟨u, t, d, hsplit, hd⟩ := occursIn_iff.mp hoccurs
  obtain ⟨e, he, hbehind⟩ := mem_outcomes_append.mp hd
  obtain ⟨x, s, hx, hword⟩ := exists_cons_of_mem h ⟨u, hsplit.symm⟩ he
  exact hq.notMem_outcomes hx (congrArg not hword) hbehind

/-- Behind the name no white space is read, and nothing that does not start with a word
character. -/
theorem occursIn_blanks_or_iff (h : OnlyContinued name plan) (hr : StartsWith (!isWord ·) r) :
    (front ++ lit name ++ blanks ++ (q ||| r)).occursIn plan = true ↔
      (front ++ lit name ++ q).occursIn plan = true := by
  constructor
  · intro hoccurs
    obtain ⟨u, t, d, hsplit, hd⟩ := occursIn_iff.mp hoccurs
    obtain ⟨f, hf, hbehind⟩ := mem_outcomes_append.mp hd
    obtain ⟨e, he, hgap⟩ := mem_outcomes_append.mp hf
    obtain ⟨x, s, hx, hword⟩ := exists_cons_of_mem h ⟨u, hsplit.symm⟩ he
    obtain ⟨w, t', hw, hrest, rfl⟩ := mem_outcomes_star_one.mp hgap
    rw [hx] at hrest
    obtain rfl : w = [] := by
      cases w with
      | nil => rfl
      | cons y w =>
        obtain ⟨rfl, -⟩ := List.cons.inj hrest
        have hblank := isBlank_eq_false_of_isWord hword
        rw [hw x List.mem_cons_self] at hblank
        cases hblank
    rw [Cursor.behind_nil (by rw [hx, hrest, List.nil_append])] at hbehind
    rcases mem_outcomes_alt.mp hbehind with hq | hother
    · exact occursIn_iff.mpr ⟨u, t, d, hsplit, mem_outcomes_append.mpr ⟨e, he, hq⟩⟩
    · exact absurd hother (hr.notMem_outcomes hx (congrArg not hword))
  · intro hoccurs
    obtain ⟨u, t, d, hsplit, hd⟩ := occursIn_iff.mp hoccurs
    obtain ⟨e, he, hq⟩ := mem_outcomes_append.mp hd
    have hgap : e ∈ blanks.outcomes e :=
      mem_outcomes_star_one.mpr ⟨[], e.rest, by simp, rfl, (Cursor.behind_nil rfl).symm⟩
    exact occursIn_iff.mpr ⟨u, t, d, hsplit, mem_outcomes_append.mpr
      ⟨e, mem_outcomes_append.mpr ⟨e, he, hgap⟩, mem_outcomes_alt.mpr (Or.inl hq)⟩⟩

theorem startsWith_blanks_append (hq : StartsWith (!isWord ·) q) :
    StartsWith (!isWord ·) (blanks ++ q) :=
  StartsWith.loop_append (startsWith_one_of not_isWord_of_isBlank) hq

/-- **A declaration that is taken for one of the type** is one of those in which what it extends
follows without a blank. -/
theorem exists_declaration_iff (h : OnlyContinued name plan) :
    (∃ p ∈ declarationPatterns name, p.occursIn plan = true) ↔
      ∃ p ∈ gluedPatterns name, p.occursIn plan = true := by
  have hmarks : ∀ s : String, (∀ x ∈ s.toList, isWord x = false) →
      StartsWith (!isWord ·) (oneOf s) := by
    intro s hs
    refine startsWith_one_of fun x hx => ?_
    rw [hs x (by simpa using hx), Bool.not_false]
  -- In front of each of the other declarations stands the name and what starts with no letter.
  have hnone : ∀ keyword q, StartsWith (!isWord ·) q →
      (lit keyword ++ blanks1 ++ lit name ++ blanks ++ q).occursIn plan = true → False := by
    intro keyword q hq hoccurs
    rw [occursIn_congr fun c => outcomes_append_assoc _ _ _ c] at hoccurs
    exact not_occursIn_of_startsWith h (startsWith_blanks_append hq) hoccurs
  have hequals : StartsWith (!isWord ·)
      (opt (char '<' ++ star (one (· != '>')) ++ char '>') ++ (blanks ++ char '=')) :=
    StartsWith.loop_append (((startsWith_char (by decide)).append _).append _)
      (startsWith_blanks_append (startsWith_char (by decide)))
  simp only [declarationPatterns, gluedPatterns, List.exists_mem_cons_iff, List.not_mem_nil,
    false_and, exists_false, or_false]
  rw [occursIn_blanks_or_iff h (hmarks "<\x7b" (by decide)),
    occursIn_blanks_or_iff h (hmarks "<\x7b" (by decide))]
  constructor
  · rintro (hinterface | halias | henum | hclass | hfunction | hconst)
    · exact Or.inl hinterface
    · refine (hnone "type" _ hequals ?_).elim
      rw [← halias]
      exact occursIn_congr fun c => by simp only [outcomes_append_assoc]
    · exact (hnone "enum" _ (startsWith_char (by decide)) henum).elim
    · exact Or.inr hclass
    · exact (hnone "function" _ (hmarks _ (by decide)) hfunction).elim
    · exact (hnone "const" _ (hmarks _ (by decide)) hconst).elim
  · rintro (hinterface | hclass)
    · exact Or.inl hinterface
    · exact Or.inr (Or.inr (Or.inr (Or.inl hclass)))

end Types

/-! ## Which names are exempted -/

/-- **Which names are exempted**: a name that stands in the plan only as the beginning of longer
ones is announced as a file exactly if a longer name is, and as a type exactly if a phrase announces
a longer name or a declaration has what it extends directly behind the name. -/
theorem exempted_iff {name : String} {plan : List Char} (h : OnlyContinued name plan) :
    (Paths.hasCreateSignal name plan = false ↔
      ∀ longer, Prolongs longer name → Paths.hasCreateSignal longer plan = false) ∧
    (Types.hasCreateSignal name plan = false ↔
      (∀ longer, Prolongs longer name →
        ∀ p ∈ Types.announcementPatterns longer, p.occursIn plan = false) ∧
      ∀ p ∈ Types.gluedPatterns name, p.occursIn plan = false) := by
  simp only [← Bool.not_eq_true]
  constructor
  · rw [Paths.hasCreateSignal_iff_exists_prolongs h]
    simp only [not_exists, not_and]
  · rw [Types.hasCreateSignal, Bool.or_eq_true, List.any_eq_true, List.any_eq_true,
      Types.exists_announcement_iff h, Types.exists_declaration_iff h]
    simp only [not_or, not_exists, not_and]

/-- A plan that announces a file and a class with longer names than others. -/
def longerNames : List Char := "Add src/a.tsx and the new class UserProfile".toList

theorem exempted_iff_longerNames : OnlyContinued "src/a.ts" longerNames ∧
    (Paths.hasCreateSignal "src/a.ts" longerNames = false ↔
      ∀ longer, Prolongs longer "src/a.ts" → Paths.hasCreateSignal longer longerNames = false) ∧
    (Types.hasCreateSignal "src/a.ts" longerNames = false ↔
      (∀ longer, Prolongs longer "src/a.ts" →
        ∀ p ∈ Types.announcementPatterns longer, p.occursIn longerNames = false) ∧
      ∀ p ∈ Types.gluedPatterns "src/a.ts", p.occursIn longerNames = false) := by
  have honly : OnlyContinued "src/a.ts" longerNames := by decide +kernel
  exact ⟨honly, exempted_iff honly⟩

/-- **A longer name exempts a shorter one** of which the plan says nothing. -/
theorem longer_name_exempts :
    OnlyContinued "src/a.ts" longerNames ∧ Paths.hasCreateSignal "src/a.ts" longerNames = true ∧
    OnlyContinued "User" longerNames ∧ Types.hasCreateSignal "User" longerNames = true := by
  decide +kernel

end PlanAudit
