import PlanAudit.Proofs.Catalog
import PlanAudit.Proofs.Pattern.Choices
import PlanAudit.Proofs.Supabase.Sections

/-!
# Reading the type of a database back

What the client generator writes is read as it was written: the tables with their columns and the
types of these, the functions with their arguments, and the enumerations with their values, as long
as no value closes a brace that no value before it opened.

## Main definitions

* `SchemaText.ReadAs`: what the type of a database is read as

## Main results

* `fieldList_partBody`: the fields of a block are read as they are written
* `enums_enumsChars`: so are the enumerations
* `parse_layout`: so is the type of a database
* `brace_in_value_cuts_section`: a value that closes a brace is lost with all values behind it
-/

namespace PlanAudit.Supabase

open Text Pattern

/-! ## Types without white space around them -/

namespace TypeText

variable (t : TypeText)

theorem head_chars : ∀ c ∈ t.chars.head?, isBlank c = false := by
  intro c hc
  by_contra hblank
  obtain ⟨x, rest, hx⟩ := List.exists_cons_of_ne_nil t.ne_nil
  obtain rfl : x = c := by simpa [hx] using hc
  -- The first character would be stripped, so that the rest would be as long as the whole.
  have hshort : (strip t.chars).length ≤ rest.length := by
    have hlength : rest.reverse.length = rest.length := List.length_reverse
    have hstart : stripStart t.chars = stripStart rest := by
      rw [hx, stripStart, List.dropWhile_cons_of_pos (by simpa using hblank)]
      rfl
    rw [strip, hstart]
    exact (prefix_stripEnd _).length_le.trans (List.dropWhile_sublist isBlank).length_le
  rw [t.trimmed, hx, List.length_cons] at hshort
  omega

theorem stripStart_append (w : List Char) : stripStart (t.chars ++ w) = t.chars ++ w := by
  refine dropWhile_eq_self ?_
  obtain ⟨x, rest, hx⟩ := List.exists_cons_of_ne_nil t.ne_nil
  have hhead := t.head_chars
  rw [hx] at hhead ⊢
  exact forall_head?_cons (hhead x rfl)

theorem getLast_chars : ∀ c ∈ t.chars.getLast?, isBlank c = false := by
  intro c hc
  by_contra hblank
  obtain ⟨rest, hrest⟩ := List.getLast?_eq_some_iff.mp (Option.mem_def.mp hc)
  have hshort : (strip t.chars).length ≤ rest.length := by
    have hlength : rest.reverse.length = rest.length := List.length_reverse
    have hstart : stripStart t.chars = t.chars := by simpa using t.stripStart_append []
    rw [strip, hstart, stripEnd, dropEndWhile, hrest, List.reverse_append, List.reverse_singleton,
      List.singleton_append, List.dropWhile_cons_of_pos (by simpa using hblank),
      List.length_reverse, ← hlength]
    exact (List.dropWhile_sublist isBlank).length_le
  rw [t.trimmed, hrest, List.length_append, List.length_singleton] at hshort
  omega

/-- White space behind a type is stripped. -/
theorem strip_append {w : List Char} (hw : ∀ c ∈ w, isBlank c = true) :
    strip (t.chars ++ w) = t.chars := by
  rw [strip, t.stripStart_append, stripEnd, dropEndWhile_append t.getLast_chars,
    dropEndWhile_eq_nil hw, List.append_nil]

end TypeText

/-! ## Fields -/

/-- What is read of a field. -/
def fieldOf (m : Match) : String × String := (m.name 1, String.ofList (strip (m.group 2)))

theorem startsWith_fieldEntry : StartsWith isWord fieldEntry :=
  ((((startsWith_capture_name 1).append _).append _).append _).append _

/-- A field is found at its name, with the white space behind it on the line. -/
theorem exists_matchHere_fieldEntry (f : Field) {w t : List Char}
    (hw : ∀ c ∈ w, isBlank c = true ∧ c ≠ '\n') (ht : ∀ c ∈ t.head?, c = ';' ∨ c = '\n')
    (before : Option Char) (offset : Nat) :
    ∃ m, fieldEntry.matchHere before offset ((f.chars ++ w) ++ t) = some m ∧
      m.stop = offset + (f.chars ++ w).length ∧ fieldOf m = f.entry := by
  have htext : (f.chars ++ w) ++ t =
      f.name.chars ++ ([] ++ [':'] ++ [' '] ++ ((f.type.chars ++ w) ++ t)) := by
    simp [Field.chars]
  rw [htext]
  let start : Cursor :=
    ⟨before, offset, f.name.chars ++ ([] ++ [':'] ++ [' '] ++ ((f.type.chars ++ w) ++ t)), []⟩
  -- The name is read, then the colon, then the type with the white space behind it.
  have hrun : fieldEntry.matchHere before offset start.rest =
      Pattern.name.run start fun e => (blanks ++ char ':' ++ blanks).run (e.record 1 start)
        fun g => (plus (one fun c => c != ';' && c != '\n')).run g fun h =>
          some ⟨offset, (h.record 2 g).offset, start.rest, (h.record 2 g).captures⟩ := rfl
  have hname : Pattern.name.Takes f.name.chars
      ([] ++ [':'] ++ [' '] ++ ((f.type.chars ++ w) ++ t)) :=
    takes_word f.name.toWord (forall_head?_cons (by decide))
  have hhead : ∀ c ∈ ((f.type.chars ++ w) ++ t).head?, isBlank c = false := by
    obtain ⟨x, rest, hx⟩ := List.exists_cons_of_ne_nil f.type.ne_nil
    have htype := f.type.head_chars
    rw [hx] at htype ⊢
    exact forall_head?_cons (htype x rfl)
  have hcolon : (blanks ++ char ':' ++ blanks).Takes ([] ++ [':'] ++ [' '])
      ((f.type.chars ++ w) ++ t) :=
    ((takes_blanks (by simp) (forall_head?_cons (by decide))).append (takes_char ':')).append
      (takes_blanks (by decide) hhead)
  have htype : (plus (one fun c => c != ';' && c != '\n')).Takes (f.type.chars ++ w) t := by
    refine takes_loop_one (fun c hc => ?_) ?_ fun c hc => ?_
    · rcases List.mem_append.mp hc with hc | hc
      · simp [f.type.plain c hc]
      · have hsemicolon : c ≠ ';' := by
          rintro rfl
          exact absurd (hw _ hc).1 (by decide)
        simp [hsemicolon, (hw c hc).2]
    · exact List.length_pos_of_ne_nil (by simp [f.type.ne_nil])
    · rcases ht c hc with rfl | rfl <;> decide
  refine ⟨_, hrun.trans (hname _ start _ _ rfl (hcolon _ _ _ _ rfl (htype _ _ _ _ rfl rfl))),
    ?_, ?_⟩
  · simp [Cursor.record, start, Field.chars, Nat.add_assoc, Nat.add_comm, Nat.add_left_comm]
  · refine Prod.ext (congrArg String.ofList Capture.text_eq) (congrArg String.ofList ?_)
    refine (congrArg strip Capture.text_eq).trans ?_
    exact f.type.strip_append fun c hc => (hw c hc).1

theorem Field.chars_append_ne_nil (f : Field) (w : List Char) : f.chars ++ w ≠ [] := by
  simp [Field.chars]

theorem finds_partLines (fs : List Field) :
    fieldEntry.Finds fieldOf (partLines (fs.map Field.chars) ++ line 8 [])
      (fs.map Field.entry) := by
  -- Induction along the lines: each field ends in front of the line feed of the next one.
  induction fs with
  | nil => exact startsWith_fieldEntry.finds_nil fun _ => isWord_of_mem_line_nil
  | cons f fs ih =>
    have hfeed : ∀ c ∈ (partLines (fs.map Field.chars) ++ line 8 []).head?, c = ';' ∨ c = '\n' := by
      cases fs <;> exact forall_head?_cons (Or.inr rfl)
    have hfield := ih.cons (f.chars_append_ne_nil []) fun before offset =>
      exists_matchHere_fieldEntry f (by simp) hfeed before offset
    have hindent := hfield.quiet (w := line 10 []) fun _ =>
      startsWith_fieldEntry.quiet fun _ => isWord_of_mem_line_nil
    have htext : partLines ((f :: fs).map Field.chars) ++ line 8 [] =
        line 10 [] ++ ((f.chars ++ []) ++ (partLines (fs.map Field.chars) ++ line 8 [])) := by
      simp [partLines, line]
    rwa [htext]

/-- Fields behind one another on a line; the white space in front of the brace is read with the last
one. -/
theorem finds_fieldRow (f : Field) (fs : List Field) :
    fieldEntry.Finds fieldOf
      (f.chars ++ ((fs.map Field.chars).flatMap (fun q => ';' :: ' ' :: q) ++ [' ']))
      ((f :: fs).map Field.entry) := by
  -- Induction along the row: each field but the last ends in front of a semicolon.
  induction fs generalizing f with
  | nil =>
    have hnone : fieldEntry.Finds fieldOf [] [] :=
      startsWith_fieldEntry.finds_nil fun _ h => absurd h List.not_mem_nil
    have hfield := hnone.cons (f.chars_append_ne_nil [' ']) fun before offset =>
      exists_matchHere_fieldEntry f (by decide) (by simp) before offset
    rwa [List.append_nil] at hfield
  | cons g fs ih =>
    have hlead := (ih g).quiet (w := [';', ' ']) fun _ => startsWith_fieldEntry.quiet (by decide)
    have hfield := hlead.cons (f.chars_append_ne_nil []) fun before offset =>
      exists_matchHere_fieldEntry f (by simp) (forall_head?_cons (Or.inl rfl)) before offset
    rw [List.append_nil] at hfield
    simpa using hfield

theorem finds_partRow (fs : List Field) :
    fieldEntry.Finds fieldOf (partRow (fs.map Field.chars) ++ [' ']) (fs.map Field.entry) := by
  cases fs with
  | nil => exact startsWith_fieldEntry.finds_nil (by decide)
  | cons f fs =>
    have hrow := (finds_fieldRow f fs).quiet (w := [' ']) fun _ =>
      startsWith_fieldEntry.quiet (by decide)
    have htext : partRow ((f :: fs).map Field.chars) ++ [' '] =
        [' '] ++
          (f.chars ++ ((fs.map Field.chars).flatMap (fun q => ';' :: ' ' :: q) ++ [' '])) := by
      simp [partRow]
    rwa [htext]

/-- **The fields of a block are read as they are written**, on one line or on several. -/
theorem fieldList_partBody (fs : Fields) :
    fieldList (partBody fs.inline (fs.list.map Field.chars)) = fs.catalog := by
  have hfinds : fieldEntry.Finds fieldOf (partBody fs.inline (fs.list.map Field.chars))
      (fs.list.map Field.entry) := by
    cases fs.inline with
    | true => exact finds_partRow fs.list
    | false => exact finds_partLines fs.list
  have hread : fieldList (partBody fs.inline (fs.list.map Field.chars)) =
      Catalog.ofList (fs.list.map Field.entry) := congrArg Catalog.ofList (hfinds none 0)
  rw [hread]
  exact Catalog.ext (Catalog.entries_ofList fs.catalog.nodup)

/-! ## Enumerations -/

theorem Literal.quoted_ne_nil (l : Literal) : l.quoted ≠ [] := List.cons_ne_nil _ _

theorem exists_matchHere_quoted (l : Literal) (before : Option Char) (offset : Nat)
    (t : List Char) :
    ∃ m, (quoted 1).matchHere before offset (l.quoted ++ t) = some m ∧
      m.stop = offset + l.quoted.length ∧ m.name 1 = l.string := by
  have htext : l.quoted ++ t = ['"'] ++ (l.chars ++ (['"'] ++ t)) := by simp [Literal.quoted]
  rw [htext]
  let start : Cursor := ⟨before, offset, ['"'] ++ (l.chars ++ (['"'] ++ t)), []⟩
  have hrun : (quoted 1).matchHere before offset start.rest =
      quote.run start fun e => (plus (noneOf "'\"")).run e fun f =>
        quote.run (f.record 1 e) fun c => some ⟨offset, c.offset, start.rest, c.captures⟩ := rfl
  have hchars : (plus (noneOf "'\"")).Takes l.chars (['"'] ++ t) := by
    refine takes_loop_one (fun c hc => ?_) (List.length_pos_of_ne_nil l.ne_nil)
      (forall_head?_cons (by decide))
    simp [l.unquoted c hc]
  have hquote : ∀ t, quote.Takes ['"'] t := fun t => takes_one (by decide)
  refine ⟨_, hrun.trans (hquote _ _ start _ _ rfl (hchars _ _ _ _ rfl (hquote _ _ _ _ _ rfl rfl))),
    ?_, ?_⟩
  · simp [Cursor.record, start, Literal.quoted, Nat.add_assoc]
  · exact congrArg String.ofList Capture.text_eq

theorem startsWith_quoted : StartsWith "'\"".toList.contains (quoted 1) :=
  (startsWith_one.append _).append _

/-- **The values of a union are read as they are written.** -/
theorem findAll_quoted_union (e : EnumText) :
    ((quoted 1).findAll e.union).map (Match.name · 1) = e.values.map Literal.string := by
  have hothers : ∀ ls : List Literal, (quoted 1).Finds (Match.name · 1)
      (ls.flatMap fun l => ' ' :: '|' :: ' ' :: l.quoted) (ls.map Literal.string) := by
    intro ls
    induction ls with
    | nil => exact startsWith_quoted.finds_nil fun _ h => absurd h List.not_mem_nil
    | cons l ls ih =>
      have hvalue := ih.cons l.quoted_ne_nil fun before offset =>
        exists_matchHere_quoted l before offset _
      exact hvalue.quiet (w := [' ', '|', ' ']) fun _ => startsWith_quoted.quiet (by decide)
  exact (hothers e.others).cons e.first.quoted_ne_nil
    (fun before offset => exists_matchHere_quoted e.first before offset _) none 0

theorem startsWith_enumEntry : StartsWith isWord enumEntry :=
  (((startsWith_capture_name 1).append _).append _).append _

theorem EnumText.unbroken_union (e : EnumText) : ∀ c ∈ e.union, (c != '\n') = true := by
  have hquoted : ∀ l : Literal, ∀ c ∈ l.quoted, (c != '\n') = true := by
    intro l c hc
    rcases List.mem_cons.mp hc with rfl | hc
    · decide
    · rcases List.mem_append.mp hc with hc | hc
      · exact bne_iff_ne.mpr (l.unquoted c hc).2.2
      · rw [List.mem_singleton.mp hc]
        decide
  intro c hc
  rcases List.mem_append.mp hc with hc | hc
  · exact hquoted e.first c hc
  · obtain ⟨l, -, hc⟩ := List.mem_flatMap.mp hc
    simp only [List.mem_cons] at hc
    rcases hc with rfl | rfl | rfl | hc
    · decide
    · decide
    · decide
    · exact hquoted l c hc

theorem enumOf?_of_group {e : EnumText} {m : Match} (hname : m.name 1 = e.name.string)
    (hunion : m.group 2 = e.union) : enumOf? m = some e.entry := by
  have hvalues := findAll_quoted_union e
  rw [enumOf?, hunion, hname, hvalues]
  rfl

/-- **The line of an enumeration is read as it is written.** -/
theorem exists_matchHere_enumEntry (e : EnumText) {t : List Char}
    (ht : ∀ c ∈ t.head?, c = '\n') (before : Option Char) (offset : Nat) :
    ∃ m, enumEntry.matchHere before offset ((e.name.chars ++ (':' :: ' ' :: e.union)) ++ t) =
        some m ∧ m.stop = offset + (e.name.chars ++ (':' :: ' ' :: e.union)).length ∧
      enumOf? m = some e.entry := by
  have htext : (e.name.chars ++ (':' :: ' ' :: e.union)) ++ t =
      e.name.chars ++ ([':'] ++ [' '] ++ (e.union ++ t)) := by simp
  rw [htext]
  let start : Cursor := ⟨before, offset, e.name.chars ++ ([':'] ++ [' '] ++ (e.union ++ t)), []⟩
  have hrun : enumEntry.matchHere before offset start.rest =
      Pattern.name.run start fun f => (char ':' ++ blanks).run (f.record 1 start) fun g =>
        (plus (one (· != '\n'))).run g fun h =>
          some ⟨offset, (h.record 2 g).offset, start.rest, (h.record 2 g).captures⟩ := rfl
  have hname : Pattern.name.Takes e.name.chars ([':'] ++ [' '] ++ (e.union ++ t)) :=
    takes_word e.name.toWord (forall_head?_cons (by decide))
  have hcolon : (char ':' ++ blanks).Takes ([':'] ++ [' ']) (e.union ++ t) :=
    (takes_char ':').append (takes_blanks (by decide) (forall_head?_cons (by decide)))
  have hunion : (plus (one (· != '\n'))).Takes e.union t :=
    takes_loop_one e.unbroken_union (Nat.succ_pos _) fun c hc => by
      rw [ht c hc]
      decide
  refine ⟨_, hrun.trans (hname _ start _ _ rfl (hcolon _ _ _ _ rfl (hunion _ _ _ _ rfl rfl))),
    ?_, enumOf?_of_group (congrArg String.ofList Capture.text_eq) Capture.text_eq⟩
  simp [Cursor.record, start, Nat.add_assoc, Nat.add_comm]

theorem filterMap_eq_of_map {α β : Type} {f : α → Option β} {xs : List α} {ys : List β}
    (h : xs.map f = ys.map some) : xs.filterMap f = ys := by
  have hid : xs.filterMap f = (xs.map f).filterMap id := by simp [List.filterMap_map]
  rw [hid, h, List.filterMap_map]
  exact List.filterMap_some

/-- **The enumerations are read as they are written**, in front of what has no names. -/
theorem enums_enumsChars (s : SchemaText) {t : List Char} (ht : ∀ c ∈ t, isWord c = false)
    (hhead : ∀ c ∈ t.head?, c = '\n') :
    (enumEntry.findAll (s.enumsChars ++ t)).filterMap enumOf? = s.enums.map EnumText.entry := by
  have hfinds : ∀ es : List EnumText, enumEntry.Finds enumOf? (es.flatMap EnumText.chars ++ t)
      (es.map fun e => some e.entry) := by
    intro es
    -- Each line ends in front of the line feed of the next one, the last in front of `t`.
    induction es with
    | nil => exact startsWith_enumEntry.finds_nil ht
    | cons e es ih =>
      have hfeed : ∀ c ∈ (es.flatMap EnumText.chars ++ t).head?, c = '\n' := by
        cases es with
        | nil => exact hhead
        | cons e es => exact forall_head?_cons rfl
      have hentry := ih.cons (w := e.name.chars ++ (':' :: ' ' :: e.union)) (by simp)
        fun before offset => exists_matchHere_enumEntry e hfeed before offset
      have hindent := hentry.quiet (w := line 6 []) fun _ =>
        startsWith_enumEntry.quiet fun _ => isWord_of_mem_line_nil
      have htext : (e :: es).flatMap EnumText.chars ++ t = line 6 [] ++
          ((e.name.chars ++ (':' :: ' ' :: e.union)) ++ (es.flatMap EnumText.chars ++ t)) := by
        simp [EnumText.chars, line]
      rwa [htext]
  refine filterMap_eq_of_map ?_
  rw [List.map_map]
  exact hfinds s.enums none 0

/-! ## Tables and functions -/

/-- The fields of a block that stands first are found by its title. -/
theorem fieldList_sectionBody? {T : String} (hne : T.toList ≠ [])
    (hword : ∀ c ∈ T.toList, isWord c = true) (fs : Fields) (t : List Char) :
    (sectionBody? (fs.block T ++ t) T).map fieldList = some fs.catalog := by
  have hbody : Braceless (partBody fs.inline (fs.list.map Field.chars)) :=
    braceless_partBody fs.braceless
  have hfound :=
    sectionBody?_of_balanced hne hword (u := []) (fun _ _ => trivial) hbody.balanced 8 t
  have htext : fs.block T ++ t = [] ++ (line 8 (heading T.toList) ++
      (partBody fs.inline (fs.list.map Field.chars) ++ '}' :: t)) := by
    simp [Fields.block, partBlock_eq]
  rw [htext, hfound, Option.map_some, fieldList_partBody]

/-- **A table is read as it is written.** -/
theorem tableOf?_body (t : TableText) :
    tableOf? ⟨t.name.string, t.body ++ line 6 []⟩ = some t.table := by
  have hrow := fieldList_sectionBody? (T := "Row") (by decide) (by decide) t.columns
    (t.insert.block "Insert" ++ (t.update.block "Update" ++
      line 8 "Relationships: []".toList) ++ line 6 [])
  obtain ⟨row, hbody, hcolumns⟩ := Option.map_eq_some_iff.mp hrow
  rw [← List.append_assoc] at hbody
  rw [tableOf?, TableText.body, hbody, Option.map_some, hcolumns]
  rfl

/-- **The arguments of a function are read as they are written.** -/
theorem args_functionOf_body (f : FunctionText) :
    (functionOf ⟨f.name.string, f.body ++ line 6 []⟩).args = f.args.catalog := by
  have hfields := fieldList_sectionBody? (T := "Args") (by decide) (by decide) f.args
    (line 8 ("Returns: ".toList ++ f.returns.chars) ++ line 6 [])
  obtain ⟨args, hbody, hargs⟩ := Option.map_eq_some_iff.mp hfields
  rw [← List.append_assoc] at hbody
  unfold functionOf
  dsimp only
  rw [FunctionText.body, hbody]
  exact hargs

/-! ## The type of a database -/

namespace SchemaText

variable (s : SchemaText)

theorem balanced_tablesChars : Balanced .curly s.tablesChars :=
  balanced_flatMap fun t _ => balanced_block t.name.word t.balanced_body

theorem balanced_functionsChars : Balanced .curly s.functionsChars :=
  balanced_flatMap fun f _ => balanced_block f.name.word f.balanced_body

theorem sectionBody?_tables :
    sectionBody? s.text "Tables" = some (s.tablesChars ++ line 4 []) := by
  have hfound := sectionBody?_of_balanced (by decide) (by decide)
    (passable_front (T := "Tables") (by decide) s)
    (s.balanced_tablesChars.append (balanced_indent (n := 4))) 4
  have htext : s.text = s.front ++ (line 4 (heading "Tables".toList) ++
      ((s.tablesChars ++ line 4 []) ++ '}' :: (block 4 "Functions".toList s.functionsChars ++
        (line 4 (heading "Enums".toList) ++ (s.enumsChars ++ back))))) := by
    simp [text, block, line]
  rw [htext]
  exact hfound _

theorem sectionBody?_functions :
    sectionBody? s.text "Functions" = some (s.functionsChars ++ line 4 []) := by
  have hpassed : Passable "Functions" (s.front ++ block 4 "Tables".toList s.tablesChars) :=
    (passable_front (by decide) s).append (passable_section (by decide) (by decide) (by decide)
      (passable_flatMap fun t _ => passable_table (by decide) t))
  have hfound := sectionBody?_of_balanced (by decide) (by decide) hpassed
    (s.balanced_functionsChars.append (balanced_indent (n := 4))) 4
  have htext : s.text = (s.front ++ block 4 "Tables".toList s.tablesChars) ++
      (line 4 (heading "Functions".toList) ++ ((s.functionsChars ++ line 4 []) ++
        '}' :: (line 4 (heading "Enums".toList) ++ (s.enumsChars ++ back)))) := by
    simp [text, block, line]
  rw [htext]
  exact hfound _

/-- A value between quotation marks opens and closes what the value does. -/
theorem depthAfter_quoted (l : Literal) (depth : Nat) :
    depthAfter .curly depth l.quoted = depthAfter .curly depth l.chars := by
  have hquote : Braceless ['"'] := by decide
  have hend : ∀ d, depthAfter .curly d ['"'] = some d := hquote.balanced
  rw [Literal.quoted, ← List.singleton_append, hquote.depthAfter_append, depthAfter_append]
  simp [hend]

/-- In the lines of the enumerations nothing but the values opens and closes braces. -/
theorem depthAfter_enumsChars (depth : Nat) :
    depthAfter .curly depth s.enumsChars = depthAfter .curly depth s.literals := by
  refine depthAfter_flatMap_congr (fun e _ depth => ?_) depth
  have hhead : Braceless (line 6 (e.name.chars ++ [':', ' '])) :=
    ((braceless_word e.name.word).append (by decide)).line
  have hbar : Braceless [' ', '|', ' '] := by decide
  have hother : ∀ l ∈ e.others, ∀ depth, depthAfter .curly depth (' ' :: '|' :: ' ' :: l.quoted) =
      depthAfter .curly depth l.chars := fun l _ d =>
    (hbar.depthAfter_append d l.quoted).trans (depthAfter_quoted l d)
  have hothers := depthAfter_flatMap_congr hother
  have htext : e.chars = line 6 (e.name.chars ++ [':', ' ']) ++ e.union := by
    simp [EnumText.chars, line]
  rw [htext, hhead.depthAfter_append, EnumText.union, EnumText.values, List.flatMap_cons,
    depthAfter_append, depthAfter_append, depthAfter_quoted]
  exact Option.bind_congr fun d _ => hothers d

theorem exists_sectionBody?_enums (h : s.ClosesNone) :
    ∃ t, t <+: back ∧ sectionBody? s.text "Enums" = some (s.enumsChars ++ t) := by
  let before := s.front ++ (block 4 "Tables".toList s.tablesChars ++
    block 4 "Functions".toList s.functionsChars)
  have hpassed : Passable "Enums" before :=
    (passable_front (by decide) s).append
      ((passable_section (by decide) (by decide) (by decide)
        (passable_flatMap fun t _ => passable_table (by decide) t)).append
      (passable_section (by decide) (by decide) (by decide)
        (passable_flatMap fun f _ => passable_function (by decide) f)))
  -- Where the values leave braces open, the section goes on into what stands behind it.
  obtain ⟨depth, hdepth⟩ := Option.isSome_iff_exists.mp h
  rw [← depthAfter_enumsChars] at hdepth
  obtain ⟨m, hm, hstop⟩ := exists_search_sectionHead (by decide) (by decide) hpassed 4
    (s.enumsChars ++ back)
  obtain ⟨t, ht, hbody⟩ := exists_body_balancedSlice hdepth
    (before ++ line 4 (heading "Enums".toList)) back
  have htext : s.text =
      before ++ (line 4 (heading "Enums".toList) ++ (s.enumsChars ++ back)) := by
    simp [text, before]
  refine ⟨t, ht, ?_⟩
  rw [sectionBody?, htext, hm, Option.map_some, hstop, ← List.append_assoc, hbody]

/-- The blocks of the section of tables. -/
theorem blocks_tablesChars : blocks (s.tablesChars ++ line 4 []) tableParts =
    s.tables.map fun t => ⟨t.name.string, t.body ++ line 6 []⟩ := by
  refine blocks_flatMap (fun t _ => ⟨t.name.ne_nil, t.name.word, fun h => t.name.free ?_⟩)
    fun t _ => t.balanced_body
  have hsub : tableParts ⊆ layoutNames := by decide
  exact hsub h

theorem blocks_functionsChars : blocks (s.functionsChars ++ line 4 []) functionParts =
    s.functions.map fun f => ⟨f.name.string, f.body ++ line 6 []⟩ := by
  refine blocks_flatMap (fun f _ => ⟨f.name.ne_nil, f.name.word, fun h => f.name.free ?_⟩)
    fun f _ => f.balanced_body
  have hsub : functionParts ⊆ layoutNames := by decide
  exact hsub h

/-- What the type of a database is read as.  Of two functions or enumerations with one name the last
counts, in the place of the first. -/
structure ReadAs (r : Schema) : Prop where
  /-- Exactly the tables, in their order, with exactly their columns and types. -/
  tables : r.tables.entries = s.tables.map fun t => (t.name.string, t.table)
  /-- The functions with their arguments. -/
  functions : r.functions.map (·.args) =
    Catalog.ofList (s.functions.map fun f => (f.name.string, f.args.catalog))
  /-- Exactly these in their order, if their names are distinct. -/
  functions_of_distinct : (s.functions.map (·.name.string)).Nodup →
    r.functions.entries.map (fun f => (f.1, f.2.args)) =
      s.functions.map fun f => (f.name.string, f.args.catalog)
  /-- The enumerations with their values. -/
  enums : r.enums = Catalog.ofList (s.enums.map EnumText.entry)
  /-- Exactly these in their order, if their names are distinct. -/
  enums_of_distinct : (s.enums.map (·.name.string)).Nodup →
    r.enums.entries = s.enums.map EnumText.entry

/-- **The type of a database is read as it is written**, as long as no value of an enumeration
closes a brace that was not opened. -/
theorem parse_layout (h : s.ClosesNone) : s.ReadAs (Schema.parse s.text) := by
  have htables : (Schema.parse s.text).tables =
      Catalog.ofList (s.tables.map fun t => (t.name.string, t.table)) := by
    have hread : (s.tables.map fun t => (⟨t.name.string, t.body ++ line 6 []⟩ : Block)).filterMap
        tableOf? = s.tables.map TableText.table := by
      rw [List.filterMap_map]
      exact filterMap_eq_of_map (by
        rw [List.map_map]
        exact List.map_congr_left fun t _ => tableOf?_body t)
    simp only [Schema.parse, sectionBody?_tables, Option.getD_some, blocks_tablesChars, hread,
      List.map_map]
    rfl
  have hfunctions : (Schema.parse s.text).functions.map (·.args) =
      Catalog.ofList (s.functions.map fun f => (f.name.string, f.args.catalog)) := by
    have hread : (s.functions.map fun f => (f.name.string,
        (functionOf ⟨f.name.string, f.body ++ line 6 []⟩).args)) =
          s.functions.map fun f => (f.name.string, f.args.catalog) :=
      List.map_congr_left fun f _ => by rw [args_functionOf_body]
    simp only [Schema.parse, sectionBody?_functions, Option.getD_some, blocks_functionsChars,
      Catalog.map_ofList, List.map_map]
    exact congrArg Catalog.ofList hread
  have henums : (Schema.parse s.text).enums = Catalog.ofList (s.enums.map EnumText.entry) := by
    -- However much of what stands behind the section belongs to it, no name stands there.
    obtain ⟨t, ht, hbody⟩ := s.exists_sectionBody?_enums h
    have hwords : ∀ c ∈ t, isWord c = false := fun c hc =>
      (show ∀ c ∈ back, isWord c = false by decide) c (ht.subset hc)
    have hfeed : ∀ c ∈ t.head?, c = '\n' := by
      obtain ⟨rest, hrest⟩ := ht
      intro c hc
      cases t with
      | nil => cases hc
      | cons x t =>
        obtain ⟨rfl, -⟩ := List.cons.inj hrest
        exact (Option.some.inj hc).symm
    simp only [Schema.parse, hbody, Option.getD_some, enums_enumsChars s hwords hfeed]
  refine ⟨?_, hfunctions, fun hdistinct => ?_, henums, fun hdistinct => ?_⟩
  · rw [htables, Catalog.entries_ofList]
    rw [List.map_map]
    exact s.distinct
  · have hentries : ((Schema.parse s.text).functions.map (·.args)).entries =
        s.functions.map fun f => (f.name.string, f.args.catalog) := by
      rw [hfunctions, Catalog.entries_ofList]
      rwa [List.map_map]
    exact hentries
  · rw [henums, Catalog.entries_ofList]
    rwa [List.map_map]

end SchemaText

/-- A type with a table, a function and an enumeration, one value of which has braces. -/
def profiles : SchemaText where
  preamble := "export type Json = string | null\n\n".toList
  preamble_plain := by decide
  tables :=
    [{ name := .ofString "profiles" (by decide)
       columns :=
         { list :=
             [⟨.ofString "id" (by decide),
                 ⟨"string".toList, by decide, by decide, by decide⟩⟩,
               ⟨.ofString "username" (by decide),
                 ⟨"string | null".toList, by decide, by decide, by decide⟩⟩]
           distinct := by decide
           inline := false }
       insert := ⟨[⟨⟨.ofString "id" (by decide),
         ⟨"string".toList, by decide, by decide, by decide⟩⟩, false⟩], false⟩
       update := ⟨[⟨⟨.ofString "id" (by decide),
         ⟨"string".toList, by decide, by decide, by decide⟩⟩, true⟩], false⟩ }]
  distinct := by decide
  functions :=
    [{ name := .ofString "get_stats" (by decide)
       args :=
         { list := [⟨.ofString "user_id" (by decide),
             ⟨"string".toList, by decide, by decide, by decide⟩⟩]
           distinct := by decide
           inline := true }
       returns := ⟨"number".toList, by decide, by decide, by decide⟩ }]
  enums :=
    [{ name := .ofString "user_role" (by decide)
       first := ⟨"admin".toList, by decide, by decide⟩
       others := [⟨['{', 'x', '}'], by decide, by decide⟩] }]

theorem parse_profiles :
    profiles.ClosesNone ∧ profiles.ReadAs (Schema.parse profiles.text) := by
  have hnone : profiles.ClosesNone := by
    unfold SchemaText.ClosesNone
    decide
  exact ⟨hnone, SchemaText.parse_layout profiles hnone⟩

/-- A type with one enumeration, the first value of which closes a brace. -/
def bracedStatus : SchemaText where
  preamble := []
  preamble_plain := by decide
  tables := []
  distinct := by decide
  functions := []
  enums :=
    [{ name := .ofString "status" (by decide)
       first := ⟨['a', '}'], by decide, by decide⟩
       others := [⟨['b'], by decide, by decide⟩] }]

/-- The section of enumerations ends at a brace that a value closes: the enumeration is lost. -/
theorem brace_in_value_cuts_section :
    ¬ ∀ s : SchemaText, s.ReadAs (Schema.parse s.text) := by
  intro h
  have hwritten := (h bracedStatus).enums_of_distinct (by decide)
  have hread : (Schema.parse bracedStatus.text).enums.entries = [] := by decide +kernel
  rw [hread] at hwritten
  exact absurd hwritten (by decide)

end PlanAudit.Supabase
