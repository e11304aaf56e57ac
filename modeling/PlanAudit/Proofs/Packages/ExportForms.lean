import PlanAudit.Proofs.Packages.Exports
import PlanAudit.Proofs.Packages.ImportStatements

/-!
# Exports as they are written

The exports of a declaration file are looked for with four patterns, one for each form: a
declaration, a list of names, all exports of another file, and these under one name.  Each form
starts a line with the word `export`, and what stands behind this word tells the forms apart.  In
any text nothing is found but exports that stand in it.

## Main definitions

* `Export`: an export as it is written, and `Export.kind`: its form
* `Export.declared?`, `Export.listed`, `Export.passedOn?`, `Export.grouped?`: what it exports
* `ReadsExport`: an export stands between two cursors
* `Export.StandsIn`: an export stands in a text

## Main results

* `kindOf_chars`: the form of an export is read off
* `readsExport_of_mem`: a pattern reads exports of its form
* `exists_standsIn_of_found`: what is found in a text belongs to an export there
-/

namespace PlanAudit.Packages

open Text Pattern

/-! ## Exports as they are written -/

/-- The word `export`. -/
def exportWord : Word := .ofString "export" (by decide)

/-- The word `declare`. -/
def declareWord : Word := .ofString "declare" (by decide)

/-- The word `abstract`. -/
def abstractWord : Word := .ofString "abstract" (by decide)

/-- The words for values and classes. -/
def valueWords : List String := ["function", "const", "let", "var", "class"]

/-- The words for types and namespaces. -/
def typeWords : List String := ["interface", "type", "enum", "namespace"]

/-- What introduces a declaration. -/
inductive Introduction where
  /-- One of the words for values and classes. -/
  | value (s : String) (mem : s ∈ valueWords)
  /-- The words `abstract class`. -/
  | abstractClass (gap : Gap)
  /-- One of the words for types and namespaces. -/
  | type (s : String) (mem : s ∈ typeWords)

/-- The text of the introduction. -/
def Introduction.chars : Introduction → List Char
  | value s _ => s.toList
  | abstractClass gap => abstractWord.chars ++ (gap.chars ++ "class".toList)
  | type s _ => s.toList

/-- The word `declare` with what stands behind it, if it is there. -/
def ambientChars : Option Gap → List Char
  | none => []
  | some gap => declareWord.chars ++ gap.chars

/-- The word `from` and the place behind it. -/
structure Origin where
  /-- What stands in front of the word. -/
  front : Gap
  /-- What stands behind it. -/
  back : Gap
  /-- The quotation marks on both sides of the place. -/
  marks : Char × Char
  /-- The place. -/
  source : List Char
  isMark_marks : isMark marks.1 = true ∧ isMark marks.2 = true
  source_ne_nil : source ≠ []
  unquoted : ∀ c ∈ source, isMark c = false

/-- The text up to the place. -/
def Origin.opening (o : Origin) : List Char :=
  o.front.chars ++ "from".toList ++ o.back.chars ++ [o.marks.1]

/-- The text of the origin. -/
def Origin.chars (o : Origin) : List Char := o.opening ++ (o.source ++ [o.marks.2])

/-- The forms of exports. -/
inductive ExportKind where
  /-- A declaration. -/
  | declaration
  /-- A list of names. -/
  | list
  /-- All exports of another file. -/
  | file
  /-- All exports of another file under one name. -/
  | group
  deriving DecidableEq

/-- The pattern with which exports of the form are looked for. -/
def ExportKind.pattern : ExportKind → Pattern
  | declaration => exportedDeclaration
  | list => exportList
  | file => exportAll
  | group => exportNamespace

/-- An export. -/
inductive Export where
  /-- A declaration. -/
  | declares (gap : Gap) (ambient : Option Gap) (introduction : Introduction) (behind : Gap)
    (name : Word)
  /-- A list of names. -/
  | lists (gap : Blanks) (inner : List Char) (ne_nil : inner ≠ []) (unclosed : '}' ∉ inner)
  /-- All exports of another file. -/
  | passes (gap : Gap) (origin : Origin)
  /-- All exports of another file under one name. -/
  | groups (gap : Gap) (a : Alias) (origin : Origin)

namespace Export

/-- What stands behind the word `export`. -/
def behindWord : Export → List Char
  | declares gap ambient introduction behind name =>
    gap.chars ++ (ambientChars ambient ++ (introduction.chars ++ (behind.chars ++ name.chars)))
  | lists gap inner _ _ => gap.chars ++ '{' :: (inner ++ ['}'])
  | passes gap origin => gap.chars ++ '*' :: origin.chars
  | groups gap a origin => gap.chars ++ '*' :: (a.chars ++ origin.chars)

/-- The text of the export. -/
def chars (e : Export) : List Char := exportWord.chars ++ e.behindWord

/-- The form of the export. -/
def kind : Export → ExportKind
  | declares .. => .declaration
  | lists .. => .list
  | passes .. => .file
  | groups .. => .group

/-- What the pattern of its form records of the export. -/
def recorded : Export → List Char
  | declares _ _ _ _ name => name.chars
  | lists _ inner _ _ => inner
  | passes _ origin => origin.source
  | groups _ a _ => a.name.chars

/-- The name that the export declares. -/
def declared? : Export → Option String
  | declares _ _ _ _ name => some name.string
  | _ => none

/-- The names that the export lists. -/
def listed : Export → List String
  | lists _ inner _ _ => (commaParts inner).filterMap listedName?
  | _ => []

/-- The place of the file whose exports the export passes on. -/
def passedOn? : Export → Option String
  | passes _ origin => some (String.ofList origin.source)
  | _ => none

/-- The name under which the export passes on those of another file. -/
def grouped? : Export → Option String
  | groups _ a _ => some a.name.string
  | _ => none

/-- The export ends in front of the text: nothing continues the name that it declares. -/
def EndsBefore (e : Export) (t : List Char) : Prop :=
  e.kind = .declaration → ∀ c ∈ t.head?, isWord c = false

instance (e : Export) (t : List Char) : Decidable (e.EndsBefore t) :=
  inferInstanceAs (Decidable (e.kind = .declaration → ∀ c ∈ t.head?, isWord c = false))

theorem chars_ne_nil (e : Export) : e.chars ≠ [] :=
  List.append_ne_nil_of_left_ne_nil exportWord.ne_nil _

section Meaning

variable (e : Export)

theorem declared?_eq :
    e.declared? = if e.kind = .declaration then some (String.ofList e.recorded) else none := by
  cases e <;> rfl

theorem listed_eq : e.listed =
    if e.kind = .list then (commaParts e.recorded).filterMap listedName? else [] := by
  cases e <;> rfl

theorem passedOn?_eq :
    e.passedOn? = if e.kind = .file then some (String.ofList e.recorded) else none := by
  cases e <;> rfl

theorem grouped?_eq :
    e.grouped? = if e.kind = .group then some (String.ofList e.recorded) else none := by
  cases e <;> rfl

end Meaning

end Export

/-! ## What tells the forms apart -/

/-- The form of an export by what follows the word `export` and white space. -/
def kindOf : List Char → ExportKind
  | '{' :: _ => .list
  | '*' :: t => if (stripStart t).head? = some 'a' then .group else .file
  | _ => .declaration

theorem kindOf_of_isWord {w : List Char} (h : ∀ c ∈ w.head?, isWord c = true) :
    kindOf w = .declaration := by
  unfold kindOf
  split
  · exact absurd (h '{' rfl) (by decide)
  · exact absurd (h '*' rfl) (by decide)
  · rfl

/-- An introduction begins with a word other than `declare`. -/
theorem Introduction.head_append (i : Introduction) (t : List Char) :
    ∃ x r, i.chars ++ t = x :: r ∧ isWord x = true ∧ x ≠ 'd' := by
  have hwords : ∀ s ∈ "abstract" :: (valueWords ++ typeWords),
      (s.toList.head?.any fun c => isWord c && c != 'd') = true := by decide
  have hhead {s : String} (hs : s ∈ "abstract" :: (valueWords ++ typeWords)) (t : List Char) :
      ∃ x r, s.toList ++ t = x :: r ∧ isWord x = true ∧ x ≠ 'd' := by
    obtain ⟨x, hx, hword⟩ := (Option.any_eq_true _ _).mp (hwords s hs)
    obtain ⟨r, hr⟩ := List.head?_eq_some_iff.mp hx
    rw [Bool.and_eq_true, bne_iff_ne] at hword
    exact ⟨x, r ++ t, by rw [hr, List.cons_append], hword⟩
  cases i with
  | value s hs => exact hhead (List.mem_cons_of_mem _ (List.mem_append_left _ hs)) t
  | abstractClass gap =>
    obtain ⟨x, r, hx⟩ := hhead List.mem_cons_self (gap.chars ++ "class".toList ++ t)
    exact ⟨x, r, (List.append_assoc _ _ _).trans hx.1, hx.2⟩
  | type s hs => exact hhead (List.mem_cons_of_mem _ (List.mem_append_right _ hs)) t

/-- Behind the word `export` and white space a declaration begins with a word. -/
theorem head_ambient_append (ambient : Option Gap) (i : Introduction) (t : List Char) :
    ∀ c ∈ (ambientChars ambient ++ (i.chars ++ t)).head?, isWord c = true := by
  cases ambient with
  | none =>
    obtain ⟨x, r, hx, hword, -⟩ := i.head_append t
    change ∀ c ∈ (i.chars ++ t).head?, isWord c = true
    rw [hx]
    exact forall_head?_cons hword
  | some gap =>
    rw [show ambientChars (some gap) = declareWord.chars ++ gap.chars from rfl, List.append_assoc]
    exact declareWord.head_word _

/-- **The form of an export is read off** what follows the word `export`. -/
theorem kindOf_chars (e : Export) (t : List Char) :
    kindOf (afterName (e.chars ++ t)) = e.kind := by
  rw [Export.chars, List.append_assoc]
  cases e with
  | declares gap ambient introduction behind name =>
    simp only [Export.behindWord, List.append_assoc]
    have hhead := head_ambient_append ambient introduction (behind.chars ++ (name.chars ++ t))
    rw [afterName_append exportWord.word (gap.head_append _), stripStart_append gap.blank,
      stripStart_eq_self fun c hc => isBlank_eq_false_of_isWord (hhead c hc)]
    exact kindOf_of_isWord hhead
  | lists gap inner _ _ =>
    simp only [Export.behindWord, List.append_assoc, List.cons_append]
    rw [afterName_append exportWord.word (gap.head_append (forall_head?_cons (by decide))),
      stripStart_append gap.blank, stripStart_eq_self (forall_head?_cons (by decide))]
    rfl
  | passes gap origin =>
    simp only [Export.behindWord, Origin.chars, Origin.opening, List.append_assoc,
      List.cons_append]
    rw [afterName_append exportWord.word (gap.head_append _), stripStart_append gap.blank,
      stripStart_eq_self (forall_head?_cons (by decide)), kindOf,
      stripStart_append origin.front.blank]
    rfl
  | groups gap a origin =>
    simp only [Export.behindWord, Alias.chars, List.append_assoc, List.cons_append]
    rw [afterName_append exportWord.word (gap.head_append _), stripStart_append gap.blank,
      stripStart_eq_self (forall_head?_cons (by decide)), kindOf,
      stripStart_append a.front.blank]
    rfl

/-! ## What a pattern reads -/

/-- From one cursor to the other stands an export of the form at the start of a line, and of it is
recorded what the form asks for. -/
def ReadsExport (k : ExportKind) (c d : Cursor) : Prop :=
  StartsLine c.before ∧ ∃ e : Export, e.kind = k ∧ c.Reads e.chars d ∧ d.Records 1 e.recorded

section Reads

variable {c d : Cursor}

/-- Every pattern begins with the word `export` at the start of a line. -/
theorem reads_of_mem_opening (hd : d ∈ (lineStart ++ lit "export").outcomes c) :
    StartsLine c.before ∧ c.Reads exportWord.chars d := by
  obtain ⟨e, hstart, hexport⟩ := mem_outcomes_append.mp hd
  obtain ⟨hstart, rfl⟩ := mem_outcomes_here.mp hstart
  exact ⟨startsLine_iff.mp hstart, reads_of_mem_lit hexport⟩

theorem exists_ambient_of_mem (hd : d ∈ (opt (lit "declare" ++ blanks1)).outcomes c) :
    ∃ ambient, c.Reads (ambientChars ambient) d := by
  rcases eq_or_mem_of_mem_opt hd with rfl | hd
  · exact ⟨none, .refl d⟩
  · obtain ⟨c₁, hdeclare, hgap⟩ := mem_outcomes_append.mp hd
    obtain ⟨gap, hgap⟩ := exists_gap_of_mem_blanks1 hgap
    exact ⟨some gap, (reads_of_mem_lit hdeclare).trans hgap⟩

theorem exists_introduction_of_mem (hd : d ∈ (oneOfTexts valueWords |||
      (lit "abstract" ++ blanks1 ++ lit "class") ||| oneOfTexts typeWords).outcomes c) :
    ∃ i : Introduction, c.Reads i.chars d := by
  rcases mem_outcomes_alt.mp hd with hd | hd
  · rcases mem_outcomes_alt.mp hd with hd | hd
    · obtain ⟨s, hs, hread⟩ := exists_reads_of_mem_oneOfTexts hd
      exact ⟨.value s hs, hread⟩
    · obtain ⟨c₂, hd, hclass⟩ := mem_outcomes_append.mp hd
      obtain ⟨c₁, habstract, hgap⟩ := mem_outcomes_append.mp hd
      obtain ⟨gap, hgap⟩ := exists_gap_of_mem_blanks1 hgap
      exact ⟨.abstractClass gap,
        (reads_of_mem_lit habstract).trans (hgap.trans (reads_of_mem_lit hclass))⟩
  · obtain ⟨s, hs, hread⟩ := exists_reads_of_mem_oneOfTexts hd
    exact ⟨.type s hs, hread⟩

/-- The origin behind what another pattern reads. -/
theorem exists_origin_of_mem {p : Pattern} {index : Nat}
    (hd : d ∈ (p ++ blanks1 ++ lit "from" ++ blanks1 ++ quoted index).outcomes c) :
    ∃ e ∈ p.outcomes c, ∃ o : Origin, e.Reads o.chars d ∧ d.Records index o.source ∧
      ∀ i w, i ≠ index → e.Records i w → d.Records i w := by
  obtain ⟨c₃, hd, hquoted⟩ := mem_outcomes_append.mp hd
  obtain ⟨c₂, hd, hback⟩ := mem_outcomes_append.mp hd
  obtain ⟨c₁, hd, hfrom⟩ := mem_outcomes_append.mp hd
  obtain ⟨e, he, hfront⟩ := mem_outcomes_append.mp hd
  obtain ⟨c₅, hd, hsecond⟩ := mem_outcomes_append.mp hquoted
  obtain ⟨c₄, hfirst, hsource⟩ := mem_outcomes_append.mp hd
  obtain ⟨f, hf, rfl⟩ := mem_outcomes_capture.mp hsource
  obtain ⟨source, hsource, hne, hfree⟩ := exists_reads_of_mem_plus hf
  have hkept (i : Nat) (w : List Char) (hi : i ≠ index) (h : e.Records i w) : d.Records i w := by
    -- What was recorded before stays, except under the index of the place.
    have h₁ := records_of_silent (p := blanks1) trivial hfront h
    have h₂ := records_of_silent (silent_lit "from") hfrom h₁
    have h₃ := records_of_silent (p := blanks1) trivial hback h₂
    have h₄ := records_of_silent (silent_one _) hfirst h₃
    have h₅ := records_of_silent (p := plus (noneOf "'\"")) trivial hf h₄
    exact records_of_silent (silent_one _) hsecond (h₅.record hi.symm)
  have hrecords : d.Records index source := records_of_silent (silent_one _) hsecond hsource.records
  obtain ⟨front, hfront⟩ := exists_gap_of_mem_blanks1 hfront
  obtain ⟨back, hback⟩ := exists_gap_of_mem_blanks1 hback
  obtain ⟨x, r, hx, hxmark, rfl⟩ := mem_outcomes_one.mp hfirst
  obtain ⟨y, r', hy, hymark, rfl⟩ := mem_outcomes_one.mp hsecond
  refine ⟨e, he, ⟨front, back, (x, y), source, ⟨hxmark, hymark⟩, hne,
    fun z hz => Bool.not_eq_true' _ ▸ hfree z hz⟩, ?_, hrecords, hkept⟩
  exact (((hfront.trans (reads_of_mem_lit hfrom)).trans hback).trans
    (Cursor.Reads.advance hx)).trans (hsource.record.trans (Cursor.Reads.advance hy))

theorem readsExport_declaration (hd : d ∈ exportedDeclaration.outcomes c) :
    ReadsExport .declaration c d := by
  -- The pieces of the pattern are split off from the last to the first, here and below.
  obtain ⟨c₅, hd, hname⟩ := mem_outcomes_append.mp hd
  obtain ⟨c₄, hd, hbehind⟩ := mem_outcomes_append.mp hd
  obtain ⟨c₃, hd, hintroduction⟩ := mem_outcomes_append.mp hd
  obtain ⟨c₂, hd, hambient⟩ := mem_outcomes_append.mp hd
  obtain ⟨c₁, hopening, hgap⟩ := mem_outcomes_append.mp hd
  obtain ⟨hstart, hexport⟩ := reads_of_mem_opening hopening
  obtain ⟨gap, hgap⟩ := exists_gap_of_mem_blanks1 hgap
  obtain ⟨ambient, hambient⟩ := exists_ambient_of_mem hambient
  obtain ⟨i, hi⟩ := exists_introduction_of_mem hintroduction
  obtain ⟨behind, hbehind⟩ := exists_gap_of_mem_blanks1 hbehind
  obtain ⟨n, hn, hrecords⟩ := exists_word_of_mem_capture hname
  exact ⟨hstart, .declares gap ambient i behind n, rfl,
    hexport.trans (hgap.trans (hambient.trans (hi.trans (hbehind.trans hn)))), hrecords⟩

theorem readsExport_list (hd : d ∈ exportList.outcomes c) : ReadsExport .list c d := by
  obtain ⟨c₄, hd, hclose⟩ := mem_outcomes_append.mp hd
  obtain ⟨c₃, hd, hinner⟩ := mem_outcomes_append.mp hd
  obtain ⟨c₂, hd, hbrace⟩ := mem_outcomes_append.mp hd
  obtain ⟨c₁, hopening, hgap⟩ := mem_outcomes_append.mp hd
  obtain ⟨hstart, hexport⟩ := reads_of_mem_opening hopening
  obtain ⟨gap, hgap, hblank⟩ := exists_reads_of_mem_blanks hgap
  obtain ⟨f, hf, rfl⟩ := mem_outcomes_capture.mp hinner
  obtain ⟨inner, hinner, hne, hfree⟩ := exists_reads_of_mem_plus hf
  have hunclosed : '}' ∉ inner := fun h => absurd (hfree '}' h) (by decide)
  exact ⟨hstart, .lists ⟨gap, hblank⟩ inner hne hunclosed, rfl,
    hexport.trans (hgap.trans ((reads_of_mem_char hbrace).trans
      (hinner.record.trans (reads_of_mem_char hclose)))),
    records_of_silent (silent_one _) hclose hinner.records⟩

theorem readsExport_file (hd : d ∈ exportAll.outcomes c) : ReadsExport .file c d := by
  obtain ⟨c₃, hd, origin, horigin, hrecords, -⟩ := exists_origin_of_mem hd
  obtain ⟨c₂, hd, hstar⟩ := mem_outcomes_append.mp hd
  obtain ⟨c₁, hopening, hgap⟩ := mem_outcomes_append.mp hd
  obtain ⟨hstart, hexport⟩ := reads_of_mem_opening hopening
  obtain ⟨gap, hgap⟩ := exists_gap_of_mem_blanks1 hgap
  exact ⟨hstart, .passes gap origin, rfl,
    hexport.trans (hgap.trans ((reads_of_mem_char hstar).trans horigin)), hrecords⟩

theorem readsExport_group (hd : d ∈ exportNamespace.outcomes c) : ReadsExport .group c d := by
  obtain ⟨c₆, hd, origin, horigin, -, hkept⟩ := exists_origin_of_mem hd
  obtain ⟨c₅, hd, hname⟩ := mem_outcomes_append.mp hd
  obtain ⟨c₄, hd, hback⟩ := mem_outcomes_append.mp hd
  obtain ⟨c₃, hd, has⟩ := mem_outcomes_append.mp hd
  obtain ⟨c₂, hd, hfront⟩ := mem_outcomes_append.mp hd
  obtain ⟨c₁, hd, hstar⟩ := mem_outcomes_append.mp hd
  obtain ⟨c₀, hopening, hgap⟩ := mem_outcomes_append.mp hd
  obtain ⟨hstart, hexport⟩ := reads_of_mem_opening hopening
  obtain ⟨gap, hgap⟩ := exists_gap_of_mem_blanks1 hgap
  obtain ⟨front, hfront⟩ := exists_gap_of_mem_blanks1 hfront
  obtain ⟨back, hback⟩ := exists_gap_of_mem_blanks1 hback
  obtain ⟨n, hn, hrecords⟩ := exists_word_of_mem_capture hname
  have halias : c₂.Reads (Alias.chars ⟨front, back, n⟩) c₆ :=
    hfront.trans ((reads_of_mem_lit has).trans (hback.trans hn))
  exact ⟨hstart, .groups gap ⟨front, back, n⟩ origin, rfl,
    hexport.trans (hgap.trans ((reads_of_mem_char hstar).trans (halias.trans horigin))),
    hkept 1 n.chars (by decide) hrecords⟩

/-- **What a pattern reads is an export** of its form, at the start of a line. -/
theorem readsExport_of_mem (k : ExportKind) (hd : d ∈ k.pattern.outcomes c) :
    ReadsExport k c d := by
  cases k with
  | declaration => exact readsExport_declaration hd
  | list => exact readsExport_list hd
  | file => exact readsExport_file hd
  | group => exact readsExport_group hd

end Reads

/-! ## What is found in any text -/

/-- The export stands in the text at the start of a line. -/
def Export.StandsIn (e : Export) (text : List Char) : Prop :=
  ∃ u t, text = u ++ (e.chars ++ t) ∧ StartsLine u.getLast?

section StandsIn

variable {text : List Char}

/-- **What is found is an export** of the form, and what is recorded is its own. -/
theorem exists_standsIn_of_mem {k : ExportKind} {m : Match} (hm : m ∈ k.pattern.findAll text) :
    ∃ e : Export, e.StandsIn text ∧ e.kind = k ∧ m.group 1 = e.recorded := by
  obtain ⟨u, t, hsplit, hm⟩ := exists_position_of_mem_findAll hm
  obtain ⟨d, hd, rfl⟩ := exists_outcome_of_matchHere hm
  obtain ⟨hline, e, hkind, hread, hrecords⟩ := readsExport_of_mem k hd
  have hrest : t = e.chars ++ d.rest := hread.rest_eq
  exact ⟨e, ⟨u, d.rest, by rw [hsplit, hrest], hline⟩, hkind, hrecords.group_eq rfl⟩

theorem exists_standsIn_of_mem_names {k : ExportKind} {f : Export → Option String}
    (hf : ∀ e, f e = if e.kind = k then some (String.ofList e.recorded) else none) {name : String}
    (h : name ∈ (k.pattern.findAll text).map (·.name 1)) :
    ∃ e : Export, e.StandsIn text ∧ f e = some name := by
  obtain ⟨m, hm, rfl⟩ := List.mem_map.mp h
  obtain ⟨e, hstands, hkind, hgroup⟩ := exists_standsIn_of_mem hm
  exact ⟨e, hstands, by rw [hf, if_pos hkind, Match.name, hgroup]⟩

/-- **No text exports more than its exports**: each name that is found belongs to one of them. -/
theorem exists_standsIn_of_found (text : List Char) (name : String) :
    (name ∈ declaredNames text → ∃ e : Export, e.StandsIn text ∧ e.declared? = some name) ∧
      (name ∈ listedNames text → ∃ e : Export, e.StandsIn text ∧ name ∈ e.listed) ∧
      (name ∈ passedOn text → ∃ e : Export, e.StandsIn text ∧ e.passedOn? = some name) ∧
      (name ∈ namespaceNames text → ∃ e : Export, e.StandsIn text ∧ e.grouped? = some name) := by
  refine ⟨exists_standsIn_of_mem_names Export.declared?_eq, fun h => ?_,
    exists_standsIn_of_mem_names Export.passedOn?_eq,
    exists_standsIn_of_mem_names Export.grouped?_eq⟩
  obtain ⟨m, hm, hname⟩ := List.mem_flatMap.mp h
  obtain ⟨e, hstands, hkind, hgroup⟩ := exists_standsIn_of_mem (k := .list) hm
  refine ⟨e, hstands, ?_⟩
  rw [e.listed_eq, if_pos hkind, ← hgroup]
  exact hname

end StandsIn

end PlanAudit.Packages
