import PlanAudit.Proofs.Packages.ExportForms

/-!
# Which exports are found in a file

A file is given as passages: each starts a line and has an export at its start or none at all.  What
follows an export in its passage is free as long as no further one starts a line there.  Each
pattern then finds the exports of its form, and none is lost.

Of other texts this does not hold: one export can stand in another, as in a list of names that is
never closed.

## Main definitions

* `Matches`: the pattern of its form matches an export
* `Unread`: a text that no export starts, whatever follows it
* `Passage`: some lines of a file, and `fileText`, `exportsIn`: the file and the exports in it

## Main results

* `matches_export`: an export is found where it starts a line
* `groups_findAll`: each pattern finds the exports of its form
* `exports_fileText`: what is found in a file, and `names_iff`: the names that it exports itself
* `listed_inner`: what a list of names exports
-/

namespace PlanAudit.Packages

open Text Pattern

/-! ## That an export is found -/

section Takes

variable {t : List Char}

theorem takes_introduction (i : Introduction) (t : List Char) :
    (oneOfTexts valueWords ||| (lit "abstract" ++ blanks1 ++ lit "class") |||
      oneOfTexts typeWords).Takes i.chars t := by
  -- The three choices are tried in order: no word of a later one begins like a word before it.
  have hvalue : ∀ s ∈ "abstract" :: typeWords, ∀ r ∈ valueWords, Apart r s := by decide
  have hnone {s : String} (hs : s ∈ "abstract" :: typeWords) {α : Type} {c : Cursor}
      {next : Cursor → Option α} {v : List Char} (hrest : c.rest = s.toList ++ v) :
      (oneOfTexts valueWords).run c next = none :=
    run_oneOfTexts_eq_none fun r hr => hrest ▸ (hvalue s hs r hr).not_begins v
  cases i with
  | value s hs =>
    have hapart : ∀ s ∈ valueWords, ∀ r ∈ valueWords, r ≠ s → Apart r s := by decide
    exact ((takes_oneOfTexts_of_apart hs (hapart s hs)).or_left).or_left
  | abstractClass gap =>
    have htakes := ((takes_lit "abstract").append (takes_gap gap
      (forall_head?_cons (by decide)))).append (takes_lit "class" (t := t))
    rw [List.append_assoc] at htakes
    exact (htakes.or_right fun α c next hrest => hnone List.mem_cons_self
      (hrest.trans (List.append_assoc _ _ _))).or_left
  | type s hs =>
    have hapart : ∀ s ∈ typeWords, ∀ r ∈ typeWords, r ≠ s → Apart r s := by decide
    have habstract : ∀ s ∈ typeWords, Apart "abstract" s := by decide
    refine (takes_oneOfTexts_of_apart hs (hapart s hs)).or_right fun α c next hrest => ?_
    have hlit : ¬ "abstract".toList <+: c.rest := hrest ▸ (habstract s hs).not_begins t
    rw [run_or, hnone (List.mem_cons_of_mem _ hs) hrest, Option.none_or]
    exact run_lit_eq_none _ hlit

theorem takes_ambient (ambient : Option Gap) (i : Introduction) (t : List Char) :
    (opt (lit "declare" ++ blanks1)).Takes (ambientChars ambient) (i.chars ++ t) := by
  obtain ⟨x, r, hx, hword, hother⟩ := i.head_append t
  cases ambient with
  | none =>
    have hstarts : StartsWith (· == 'd') (lit "declare" ++ blanks1) :=
      (startsWith_lit rfl rfl).append _
    refine takes_opt_nil fun c hrest => List.eq_nil_iff_forall_not_mem.mpr fun d => ?_
    exact hstarts.notMem_outcomes (hrest.trans hx) (beq_eq_false_iff_ne.mpr hother)
  | some gap =>
    have hhead : ∀ c ∈ (i.chars ++ t).head?, isBlank c = false := by
      rw [hx]
      exact forall_head?_cons (isBlank_eq_false_of_isWord hword)
    exact ((takes_lit "declare").append (takes_gap gap hhead)).opt
      (List.append_ne_nil_of_left_ne_nil declareWord.ne_nil _)

theorem Origin.takes_opening (o : Origin) (t : List Char) : sourceOpening.Takes o.opening t := by
  have hmarks : ∀ x ∈ "'\"".toList, isBlank x = false := by decide
  exact takes_sourceOpening o.front o.back o.isMark_marks.1
    (hmarks _ (List.contains_iff_mem.mp o.isMark_marks.1)) t

theorem Origin.takes_source (o : Origin) (t : List Char) :
    (plus (noneOf "'\"")).Takes o.source (o.marks.2 :: t) := by
  have hfree : ∀ c ∈ o.source, (!isMark c) = true := fun c hc => by
    rw [o.unquoted c hc, Bool.not_false]
  have hstop : (!isMark o.marks.2) = false := by rw [o.isMark_marks.2, Bool.not_true]
  exact takes_loop_one hfree (List.length_pos_of_ne_nil o.source_ne_nil) (forall_head?_cons hstop)

/-- The word `export` with the asterisk behind it. -/
def starOpening : Pattern := lit "export" ++ blanks1 ++ char '*'

theorem takes_starOpening (gap : Gap) (t : List Char) :
    starOpening.Takes (exportWord.chars ++ gap.chars ++ ['*']) t :=
  ((takes_lit "export").append (takes_gap gap (forall_head?_cons (by decide)))).append
    (takes_char '*')

/-- A pattern matches the text of an export and records what it has to. -/
def Matches (e : Export) (before : Option Char) (offset : Nat) (t : List Char) : Prop :=
  ∃ m, e.kind.pattern.matchHere before offset (e.chars ++ t) = some m ∧
    m.stop = offset + e.chars.length ∧ m.group 1 = e.recorded

variable {before : Option Char} (hstart : StartsLine before) (offset : Nat)

include hstart

theorem matches_declares (gap : Gap) (ambient : Option Gap) (i : Introduction) (behind : Gap)
    (n : Word) (ht : ∀ c ∈ t.head?, isWord c = false) :
    Matches (.declares gap ambient i behind n) before offset t := by
  let opening : Pattern := lit "export" ++ blanks1 ++ opt (lit "declare" ++ blanks1) ++
    (oneOfTexts valueWords ||| (lit "abstract" ++ blanks1 ++ lit "class") |||
      oneOfTexts typeWords) ++ blanks1
  let start : Cursor := ⟨before, offset, Export.chars (.declares gap ambient i behind n) ++ t, []⟩
  have hrun : exportedDeclaration.matchHere before offset start.rest =
      lineStart.run start fun c => opening.run c fun d => name.run d fun e =>
        some ⟨offset, e.offset, start.rest, (e.record 1 d).captures⟩ := rfl
  have hrest : start.rest = (exportWord.chars ++ gap.chars ++ ambientChars ambient ++ i.chars ++
      behind.chars) ++ (n.chars ++ t) := by
    simp [start, Export.chars, Export.behindWord]
  have hhead := head_ambient_append ambient i (behind.chars ++ (n.chars ++ t))
  have hopening : opening.Takes (exportWord.chars ++ gap.chars ++ ambientChars ambient ++ i.chars ++
      behind.chars) (n.chars ++ t) :=
    ((((takes_lit "export").append
      (takes_gap gap fun c hc => isBlank_eq_false_of_isWord (hhead c hc))).append
        (takes_ambient ambient i _)).append (takes_introduction i _)).append
          (takes_gap behind (n.head_append t))
  refine ⟨_, hrun.trans ((run_lineStart hstart).trans (hopening _ _ _ _ hrest
    (takes_word n ht _ _ _ _ rfl rfl))), ?_, Capture.text_eq⟩
  simp [start, Export.chars, Export.behindWord]

theorem matches_lists (gap : Blanks) {inner : List Char} (hne : inner ≠ [])
    (hunclosed : '}' ∉ inner) : Matches (.lists gap inner hne hunclosed) before offset t := by
  let start : Cursor := ⟨before, offset, Export.chars (.lists gap inner hne hunclosed) ++ t, []⟩
  have hrun : exportList.matchHere before offset start.rest =
      lineStart.run start fun c => (lit "export" ++ blanks ++ char '{').run c fun d =>
        (plus (one (· != '}'))).run d fun e => (char '}').run (e.record 1 d) fun f =>
          some ⟨offset, f.offset, start.rest, f.captures⟩ := rfl
  have hrest : start.rest = (exportWord.chars ++ gap.chars ++ ['{']) ++ (inner ++ ('}' :: t)) := by
    simp [start, Export.chars, Export.behindWord]
  have hopening : (lit "export" ++ blanks ++ char '{').Takes
      (exportWord.chars ++ gap.chars ++ ['{']) (inner ++ ('}' :: t)) :=
    ((takes_lit "export").append (takes_blanks gap.blank (forall_head?_cons (by decide)))).append
      (takes_char '{')
  have hinner : (plus (one (· != '}'))).Takes inner ('}' :: t) :=
    takes_loop_one (fun c hc => bne_iff_ne.mpr fun heq => hunclosed (heq ▸ hc))
      (List.length_pos_of_ne_nil hne) (forall_head?_cons (by decide))
  refine ⟨_, hrun.trans ((run_lineStart hstart).trans (hopening _ _ _ _ hrest
    (hinner _ _ _ _ rfl (takes_char '}' _ _ _ _ rfl rfl)))), ?_, Capture.text_eq⟩
  simp [start, Cursor.record, Export.chars, Export.behindWord]
  omega

theorem matches_passes (gap : Gap) (o : Origin) :
    Matches (.passes gap o) before offset t := by
  let start : Cursor := ⟨before, offset, Export.chars (.passes gap o) ++ t, []⟩
  have hrun : exportAll.matchHere before offset start.rest =
      lineStart.run start fun c => starOpening.run c fun d =>
        sourceOpening.run d fun e => (plus (noneOf "'\"")).run e fun f =>
          quote.run (f.record 1 e) fun g =>
            some ⟨offset, g.offset, start.rest, g.captures⟩ := rfl
  have hrest : start.rest = (exportWord.chars ++ gap.chars ++ ['*']) ++
      (o.opening ++ (o.source ++ ([o.marks.2] ++ t))) := by
    simp [start, Export.chars, Export.behindWord, Origin.chars]
  refine ⟨_, hrun.trans ((run_lineStart hstart).trans (takes_starOpening gap _ _ _ _ _ hrest
    (o.takes_opening _ _ _ _ _ rfl (o.takes_source t _ _ _ _ rfl
      (takes_one o.isMark_marks.2 _ _ _ _ rfl rfl))))), ?_, Capture.text_eq⟩
  simp [start, Cursor.record, Export.chars, Export.behindWord, Origin.chars]
  omega

theorem matches_groups (gap : Gap) (a : Alias) (o : Origin) :
    Matches (.groups gap a o) before offset t := by
  let start : Cursor := ⟨before, offset, Export.chars (.groups gap a o) ++ t, []⟩
  have hrun : exportNamespace.matchHere before offset start.rest =
      lineStart.run start fun c => starOpening.run c fun d =>
        (blanks1 ++ lit "as" ++ blanks1).run d fun e => name.run e fun f =>
          sourceOpening.run (f.record 1 e) fun g => (plus (noneOf "'\"")).run g fun h =>
            quote.run (h.record 2 g) fun i =>
              some ⟨offset, i.offset, start.rest, i.captures⟩ := rfl
  have hrest : start.rest = (exportWord.chars ++ gap.chars ++ ['*']) ++
      ((a.front.chars ++ asWord.chars ++ a.back.chars) ++ (a.name.chars ++
        (o.opening ++ (o.source ++ ([o.marks.2] ++ t))))) := by
    simp [start, Export.chars, Export.behindWord, Origin.chars, Alias.chars]
  have hname : name.Takes a.name.chars (o.opening ++ (o.source ++ ([o.marks.2] ++ t))) :=
    takes_word a.name (by
      simp only [Origin.opening, List.append_assoc]
      exact o.front.head_append _)
  refine ⟨_, hrun.trans ((run_lineStart hstart).trans (takes_starOpening gap _ _ _ _ _ hrest
    (a.takes_front _ _ _ _ _ rfl (hname _ _ _ _ rfl (o.takes_opening _ _ _ _ _ rfl
      (o.takes_source t _ _ _ _ rfl (takes_one o.isMark_marks.2 _ _ _ _ rfl rfl))))))), ?_,
    Capture.text_eq⟩
  simp [start, Cursor.record, Export.chars, Export.behindWord, Origin.chars, Alias.chars]
  omega

/-- **An export is found where it starts a line**, with what its pattern records of it. -/
theorem matches_export (e : Export) (ht : e.EndsBefore t) : Matches e before offset t := by
  cases e with
  | declares gap ambient i behind n =>
    exact matches_declares hstart offset gap ambient i behind n (ht rfl)
  | lists gap inner hne hunclosed => exact matches_lists hstart offset gap hne hunclosed
  | passes gap o => exact matches_passes hstart offset gap o
  | groups gap a o => exact matches_groups hstart offset gap a o

end Takes

/-! ## What is found in a text -/

/-- Whatever follows the text, no export starts it. -/
def Unread (w : List Char) : Prop := ∀ (t : List Char) (e : Export) (r : List Char),
  w ++ t ≠ e.chars ++ r

/-- Some lines of a file, with an export at the start of the first one or none at all. -/
structure Passage where
  /-- The export. -/
  start : Option Export
  /-- What stands behind it. -/
  tail : List Char
  ends : ∀ e ∈ start, e.EndsBefore tail
  /-- No export starts the first line if none is given. -/
  calm_first : start = none → tail ≠ [] → Unread tail
  /-- No export starts a further line. -/
  calm : ∀ u v, start.elim [] Export.chars ++ tail = u ++ '\n' :: v → v ≠ [] → Unread v

/-- The text of the passage. -/
def Passage.chars (p : Passage) : List Char := p.start.elim [] Export.chars ++ p.tail

/-- The text of a file that is given as passages. -/
def fileText (ps : List Passage) : List Char := ['\n'].intercalate (ps.map Passage.chars)

/-- The exports in a file, in the order in which they stand. -/
def exportsIn (ps : List Passage) : List Export := ps.filterMap Passage.start

/-- The exports of the form, as they are recorded. -/
def recordedAs (k : ExportKind) (es : List Export) : List (List Char) :=
  (es.filter (·.kind = k)).map Export.recorded

section Passages

variable {k : ExportKind} {before : Option Char} {t : List Char}

theorem startsWith_pattern (k : ExportKind) : StartsWith (· == 'e') k.pattern := by
  intro c d hd
  obtain ⟨-, e, -, hread, -⟩ := readsExport_of_mem k hd
  exact ⟨'e', _, hread.rest_eq, rfl⟩

/-- **In a passage nothing is found** but an export of the form at the start. -/
theorem Passage.quiet (p : Passage) {u w : List Char} (hsplit : p.chars = u ++ w)
    (hu : u = [] → ∀ e ∈ p.start, e.kind ≠ k) : k.pattern.Quiet (u.getLast?.or before) w t := by
  refine quiet_of_forall fun v s hw hs c d hbefore hrest hd => ?_
  obtain ⟨hline, e, hkind, hread, -⟩ := readsExport_of_mem k hd
  have htext : s ++ t = e.chars ++ d.rest := hrest.symm.trans hread.rest_eq
  have hchars : p.chars = (u ++ v) ++ s := by rw [hsplit, hw, List.append_assoc]
  rcases List.eq_nil_or_concat (u ++ v) with hnil | ⟨front, x, hfront⟩
  · -- At the start of the passage another export would have to stand, or one that is not given.
    obtain ⟨rfl, rfl⟩ := List.append_eq_nil_iff.mp hnil
    rw [hnil, List.nil_append] at hchars
    cases hp : p.start with
    | none =>
      have htail : p.chars = p.tail := by rw [Passage.chars, hp]; rfl
      rw [htail] at hchars
      exact p.calm_first hp (hchars ▸ hs) t e d.rest (hchars ▸ htext)
    | some e' =>
      have hkind' : kindOf (afterName (s ++ t)) = e'.kind := by
        rw [← hchars, Passage.chars, hp, Option.elim_some, List.append_assoc, kindOf_chars]
      rw [htext, kindOf_chars, hkind] at hkind'
      exact hu rfl e' hp hkind'.symm
  · -- Further on it would have to start a line.
    obtain rfl : x = '\n' := by
      have hlast : c.before = some x := by
        rw [hbefore, ← Option.or_assoc, ← List.getLast?_append, hfront]
        simp
      rw [hlast] at hline
      simpa [StartsLine] using hline
    rw [hfront] at hchars
    exact p.calm front s (by simpa [Passage.chars] using hchars) hs t e d.rest htext

theorem Export.EndsBefore.append {e : Export} {w : List Char} (h : e.EndsBefore w)
    (ht : ∀ c ∈ t.head?, isWord c = false) : e.EndsBefore (w ++ t) := by
  intro hkind
  cases w with
  | nil => exact ht
  | cons x w => exact h hkind

/-- **A search goes on behind a passage** with what it has found at the start. -/
theorem Passage.map_findScan (p : Passage) (k : ExportKind) (hbefore : StartsLine before)
    (offset : Nat) (ht : ∀ c ∈ t.head?, isWord c = false) :
    (k.pattern.findScan 0 before offset (p.chars ++ t)).map (·.group 1) =
      recordedAs k p.start.toList ++ (k.pattern.findScan 0 (p.chars.getLast?.or before)
        (offset + p.chars.length) t).map (·.group 1) := by
  by_cases hfound : ∃ e ∈ p.start, e.kind = k
  · obtain ⟨e, he, rfl⟩ := hfound
    have hchars : p.chars = e.chars ++ p.tail := by rw [Passage.chars, he, Option.elim_some]
    obtain ⟨m, hm, hstop, hgroup⟩ := matches_export hbefore offset e ((p.ends e he).append ht)
    have hquiet : e.kind.pattern.Quiet (e.chars.getLast?.or before) p.tail t :=
      p.quiet hchars fun h => absurd h e.chars_ne_nil
    rw [hchars, List.append_assoc, findScan_append_of_matchHere e.chars_ne_nil hm hstop,
      findScan_append_of_quiet hquiet, List.map_cons, hgroup, he]
    simp [recordedAs, List.getLast?_append, Option.or_assoc, Nat.add_assoc]
  · have hquiet : k.pattern.Quiet before p.chars t :=
      p.quiet (u := []) rfl fun _ e he hkind => hfound ⟨e, he, hkind⟩
    have hnone : recordedAs k p.start.toList = [] := by
      simpa [recordedAs] using fun e he hkind => hfound ⟨e, he, hkind⟩
    rw [findScan_append_of_quiet hquiet, hnone, List.nil_append]

theorem recordedAs_cons (k : ExportKind) (p : Passage) (ps : List Passage) :
    recordedAs k (exportsIn (p :: ps)) =
      recordedAs k p.start.toList ++ recordedAs k (exportsIn ps) := by
  cases hp : p.start with
  | none => rw [exportsIn, List.filterMap_cons_none hp]; rfl
  | some e =>
    rw [exportsIn, List.filterMap_cons_some hp, ← List.singleton_append, recordedAs,
      List.filter_append, List.map_append]
    rfl

theorem map_findScan_passages (k : ExportKind) (p : Passage) (ps : List Passage)
    (hbefore : StartsLine before) (offset : Nat) :
    (k.pattern.findScan 0 before offset (p.chars ++ linesAfter (ps.map Passage.chars))).map
      (·.group 1) = recordedAs k (exportsIn (p :: ps)) := by
  -- Induction on the passages behind the first: each starts behind a line feed, and with it no
  -- export starts.
  induction ps generalizing p before offset with
  | nil =>
    have hend : k.pattern.Finds (·.group 1) [] [] :=
      (startsWith_pattern k).finds_nil (by decide)
    rw [List.map_nil, linesAfter_nil, p.map_findScan k hbefore offset (by decide), hend,
      recordedAs_cons]
    rfl
  | cons q ps ih =>
    have hfeed : k.pattern.Quiet (p.chars.getLast?.or before) ['\n']
        (q.chars ++ linesAfter (ps.map Passage.chars)) :=
      (startsWith_pattern k).quiet (by decide)
    have hbehind := findScan_append_of_quiet hfeed (offset + p.chars.length)
    rw [List.map_cons, linesAfter_cons, p.map_findScan k hbefore offset
      (forall_head?_cons (by decide)), recordedAs_cons]
    rw [List.singleton_append] at hbehind
    rw [hbehind]
    exact congrArg _ (ih q (Or.inr rfl) _)

/-- **Each pattern finds the exports of its form**, in the order in which they stand. -/
theorem groups_findAll (k : ExportKind) (ps : List Passage) :
    (k.pattern.findAll (fileText ps)).map (·.group 1) =
      recordedAs k (exportsIn ps) := by
  cases ps with
  | nil => exact (startsWith_pattern k).finds_nil (by decide) none 0
  | cons p ps =>
    rw [fileText, List.map_cons, intercalate_lineFeed]
    exact map_findScan_passages k p ps (Or.inl rfl) 0

end Passages

/-! ## What a file exports -/

section Files

/-- A name in a list of exports is read like one in a list of imports. -/
theorem listedName?_eq (part : List Char) (package : String) :
    listedName? part = (namedBinding? package part).map (·.localName) := by
  cases part with
  | nil => rfl
  | cons x part =>
    rw [listedName?, namedBinding?, List.isEmpty_cons, Bool.false_or]
    cases beginsWith "type ".toList (x :: part) with
    | true => rfl
    | false =>
      rw [if_neg Bool.false_ne_true, if_neg Bool.false_ne_true]
      cases aliasClause.matchStart (x :: part) with
      | some m => rfl
      | none => cases soleName.matchesStart (x :: part) <;> rfl

/-- **What a list of names exports** is what an import of the same list binds. -/
theorem listed_inner (l : NameList) (package : String) :
    (commaParts l.inner).filterMap listedName? = (l.bindings package).map (·.localName) := by
  rw [← namedBindings_inner, namedBindings, List.map_filterMap]
  exact List.filterMap_congr fun part _ => listedName?_eq part package

/-- What a pattern finds in a file, by what it means for the exports there. -/
theorem map_name_findAll (k : ExportKind) {f : Export → Option String}
    (hf : ∀ e, f e = if e.kind = k then some (String.ofList e.recorded) else none)
    (ps : List Passage) :
    (k.pattern.findAll (fileText ps)).map (·.name 1) =
      (exportsIn ps).filterMap f := by
  have hread : (k.pattern.findAll (fileText ps)).map (·.name 1) =
      (recordedAs k (exportsIn ps)).map String.ofList := by
    rw [← groups_findAll, List.map_map]
    rfl
  rw [hread, recordedAs, List.map_map, ← List.filterMap_eq_map, List.filterMap_filter]
  refine List.filterMap_congr fun e _ => ?_
  simp [hf]

theorem flatMap_recordedAs (es : List Export) :
    (recordedAs .list es).flatMap (fun inner => (commaParts inner).filterMap listedName?) =
      es.flatMap Export.listed := by
  induction es with
  | nil => rfl
  | cons e es ih =>
    cases e <;> simpa [recordedAs, Export.kind, Export.listed, Export.recorded] using ih

/-- **What is found in a file** are the exports that stand in it. -/
theorem exports_fileText (ps : List Passage) :
    declaredNames (fileText ps) = (exportsIn ps).filterMap Export.declared? ∧
      listedNames (fileText ps) = (exportsIn ps).flatMap Export.listed ∧
      passedOn (fileText ps) = (exportsIn ps).filterMap Export.passedOn? ∧
      namespaceNames (fileText ps) = (exportsIn ps).filterMap Export.grouped? := by
  refine ⟨map_name_findAll .declaration Export.declared?_eq ps, ?_,
    map_name_findAll .file Export.passedOn?_eq ps,
    map_name_findAll .group Export.grouped?_eq ps⟩
  rw [← flatMap_recordedAs, ← groups_findAll, List.flatMap_map]
  rfl

section DeclarationFile

variable {f : DeclarationFile} {ps : List Passage} (h : f.content = fileText ps)

include h

/-- **The names that a file exports itself** are those that it declares or lists. -/
theorem names_iff (name : String) : f.Names name ↔
    ∃ e ∈ exportsIn ps, e.declared? = some name ∨ name ∈ e.listed := by
  obtain ⟨hdeclared, hlisted, -⟩ := exports_fileText ps
  rw [DeclarationFile.Names, h, hdeclared, hlisted, List.mem_filterMap, List.mem_flatMap]
  simp only [← exists_or, and_or_left]

theorem namesFile_iff (name : String) : f.NamesFile name ↔
    ∃ e ∈ exportsIn ps, e.grouped? = some name := by
  obtain ⟨-, -, -, hgrouped⟩ := exports_fileText ps
  rw [DeclarationFile.NamesFile, h, hgrouped, List.mem_filterMap]

/-- The files whose exports a file passes on are those that it names so. -/
theorem mem_passedOn_iff (specifier : String) : specifier ∈ passedOn f.content ↔
    ∃ e ∈ exportsIn ps, e.passedOn? = some specifier := by
  obtain ⟨-, -, hpassed, -⟩ := exports_fileText ps
  rw [h, hpassed, List.mem_filterMap]

end DeclarationFile

end Files

/-! ## A file with all forms -/

/-- A text that neither begins with the word `export` nor begins this word. -/
theorem unread_of_apart {w : List Char} (hword : ¬ exportWord.chars <+: w)
    (hpart : ¬ w <+: exportWord.chars) : Unread w := by
  intro t e r heq
  have hpre : exportWord.chars <+: w ++ t := ⟨e.behindWord ++ r, by
    rw [heq, Export.chars, List.append_assoc]⟩
  exact (List.prefix_or_prefix_of_prefix hpre (List.prefix_append w t)).elim hword hpart

/-- A line with an export at the start. -/
def Passage.line (e : Export) (tail : List Char) (ends : e.EndsBefore tail)
    (hline : '\n' ∉ e.chars ++ tail) : Passage where
  start := some e
  tail := tail
  ends e' he' := Option.some.inj he' ▸ ends
  calm_first := nofun
  calm u v hsplit := absurd (by simp [show e.chars ++ tail = u ++ '\n' :: v from hsplit]) hline

/-- A line without an export. -/
def Passage.plain (tail : List Char) (unread : Unread tail) (hline : '\n' ∉ tail) : Passage where
  start := none
  tail := tail
  ends := nofun
  calm_first _ _ := unread
  calm u v hsplit := absurd (by simp [show tail = u ++ '\n' :: v from hsplit]) hline

/-- A comment, a constant, a list of names, and two files the exports of which are passed on. -/
def indexFile : List Passage :=
  let word (s : String) (h : s.toList ≠ [] ∧ ∀ c ∈ s.toList, isWord c = true) : Word :=
    .ofString s h
  let names : NameList :=
    ⟨[(.space, .renamed (word "inner" (by decide)) ⟨.space, .space, word "outer" (by decide)⟩
        (by decide), .none),
      (.space, .typeOnly .space (word "Options" (by decide)) none, .none),
      (.space, .plain (word "reset" (by decide)), .space)], none⟩
  let origin (s : String) (h : s.toList ≠ [] ∧ ∀ c ∈ s.toList, isMark c = false) : Origin :=
    ⟨.space, .space, ('\'', '\''), s.toList, by decide, h.1, h.2⟩
  let tools : Alias := ⟨.space, .space, word "tools" (by decide)⟩
  [.plain "// The index".toList (unread_of_apart (by decide) (by decide)) (by decide),
    .line (.declares .space (some .space) (.value "const" (by decide)) .space
      (word "version" (by decide))) ": string;".toList (by decide) (by decide),
    .line (.lists .space names.inner (by decide) (by decide)) [] (by decide) (by decide),
    .line (.passes .space (origin "./more" (by decide))) ";".toList (by decide) (by decide),
    .line (.groups .space tools (origin "@scope/tools" (by decide))) ";".toList (by decide)
      (by decide)]

example :
    fileText indexFile = ("// The index\nexport declare const version: string;\n" ++
        "export \x7b inner as outer, type Options, reset \x7d\nexport * from './more';\n" ++
        "export * as tools from '@scope/tools';").toList ∧
      declaredNames (fileText indexFile) = ["version"] ∧
      listedNames (fileText indexFile) = ["outer", "reset"] ∧
      passedOn (fileText indexFile) = ["./more"] ∧
      namespaceNames (fileText indexFile) = ["tools"] := by
  decide +kernel

end PlanAudit.Packages
