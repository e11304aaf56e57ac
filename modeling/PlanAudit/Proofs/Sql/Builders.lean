import PlanAudit.Proofs.Catalog
import PlanAudit.Proofs.Pattern.Captures
import PlanAudit.Proofs.Pattern.Choices
import PlanAudit.Proofs.Text.ObjectKeys
import PlanAudit.Sql.Schema

/-!
# Tables that are read of their definitions

A table is defined by an exported variable and a call of a builder function, whose second argument
lists the columns: an object literal, or a callback that returns one.  Both forms lead the same
reader of object literals to the same brace, so that they are read as the same columns.

A variable whose name has a dollar sign is not read at all, because the head of a definition is
found by a pattern in which names have none.

## Main definitions

* `ColumnsForm`, `TableText`: the definition of a table as it is written, in either form

## Main results

* `columnsStart?_chars`: the brace that is found behind the name of the table
* `head?_builderTables`: the table that is read of its definition
* `isWord_of_mem_builderTables`: a variable that is bound to a table has no dollar sign
-/

namespace PlanAudit.Sql

open Text Pattern

/-! ## Definitions of tables -/

/-- What stands between the name of the table and the properties of the object literal that lists
its columns. -/
inductive ColumnsForm where
  /-- The literal itself. -/
  | literal (space : Blanks)
  /-- A callback that returns the literal; its parameter has no equals sign. -/
  | callback (space : Blanks) (parameter : List Char) (simple : '=' ∉ parameter)
      (gap arrowGap braceGap : Blanks)

/-- The characters in front of the opening brace. -/
def ColumnsForm.opening : ColumnsForm → List Char
  | literal space => space.chars
  | callback space parameter _ gap arrowGap braceGap =>
    space.chars ++ '(' :: (parameter ++ ')' :: (gap.chars ++
      '=' :: '>' :: (arrowGap.chars ++ '(' :: braceGap.chars)))

/-- The characters up to the opening brace. -/
def ColumnsForm.chars (f : ColumnsForm) : List Char := f.opening ++ ['{']

/-- The definition of a table, but for the form in which the columns are listed. -/
structure TableText where
  /-- What stands between the words `export` and `const`. -/
  exportGap : Gap
  /-- What stands between the word `const` and the variable. -/
  constGap : Gap
  /-- The variable that is bound to the table. -/
  variableName : KeyName
  /-- What stands on both sides of the equals sign. -/
  equalsGaps : Blanks × Blanks
  /-- What stands on both sides of the parenthesis. -/
  callGaps : Blanks × Blanks
  /-- The name of the table. -/
  name : List Char
  name_ne_nil : name ≠ []
  name_unquoted : ∀ c ∈ name, c ≠ '"' ∧ c ≠ '\''
  /-- What stands between the name and the comma. -/
  commaGap : Blanks
  /-- The columns. -/
  columns : ObjectText
  /-- No two columns share a name. -/
  distinct : columns.names.Nodup
  /-- What follows the columns. -/
  after : List Char

namespace TableText

/-- What stands in front of the variable. -/
def front (d : TableText) : List Char :=
  "export".toList ++ d.exportGap.chars ++ "const".toList ++ d.constGap.chars

/-- What stands between the variable and the name of the table. -/
def middle (d : TableText) : List Char :=
  d.equalsGaps.1.chars ++ ['='] ++ d.equalsGaps.2.chars ++ "pgTable".toList ++
    d.callGaps.1.chars ++ ['('] ++ d.callGaps.2.chars ++ ['"']

/-- What stands between the name of the table and its columns. -/
def back (d : TableText) : List Char := ['"'] ++ d.commaGap.chars ++ [',']

/-- The definition up to its columns. -/
def head (d : TableText) : List Char :=
  d.front ++ (d.variableName.chars ++ (d.middle ++ (d.name ++ d.back)))

/-- The text of the definition. -/
def text (d : TableText) (f : ColumnsForm) : List Char :=
  d.head ++ (f.chars ++ (d.columns.chars ++ d.after))

end TableText

/-! ## The head of a definition -/

section Head

variable (d : TableText)

theorem takes_pgTable {t : List Char} : builderFunction.Takes "pgTable".toList t :=
  takes_oneOfTexts_head

theorem takes_front {t : List Char} (ht : ∀ c ∈ t.head?, isBlank c = false) :
    (lit "export" ++ blanks1 ++ lit "const" ++ blanks1).Takes d.front t := by
  have hexport : blanks1.Takes d.exportGap.chars ("const".toList ++ (d.constGap.chars ++ t)) :=
    takes_gap d.exportGap (forall_head?_cons (by decide))
  have hconst : blanks1.Takes d.constGap.chars t :=
    takes_gap d.constGap ht
  exact (((takes_lit "export").append hexport).append (takes_lit "const")).append hconst

theorem takes_middle {t : List Char} :
    (blanks ++ char '=' ++ blanks ++ builderFunction ++ blanks ++ char '(' ++ blanks ++
      quote).Takes d.middle t := by
  have hequals : blanks.Takes d.equalsGaps.1.chars (['='] ++ (d.equalsGaps.2.chars ++
      ("pgTable".toList ++ (d.callGaps.1.chars ++
        (['('] ++ (d.callGaps.2.chars ++ (['"'] ++ t))))))) :=
    takes_blanks (Blanks.blank _) (forall_head?_cons (by decide))
  have hfunction : blanks.Takes d.equalsGaps.2.chars
      ("pgTable".toList ++ (d.callGaps.1.chars ++
        (['('] ++ (d.callGaps.2.chars ++ (['"'] ++ t))))) :=
    takes_blanks (Blanks.blank _) (forall_head?_cons (by decide))
  have hcall : blanks.Takes d.callGaps.1.chars (['('] ++ (d.callGaps.2.chars ++ (['"'] ++ t))) :=
    takes_blanks (Blanks.blank _) (forall_head?_cons (by decide))
  have hname : blanks.Takes d.callGaps.2.chars (['"'] ++ t) :=
    takes_blanks (Blanks.blank _) (forall_head?_cons (by decide))
  exact (((((((hequals.append (takes_char '=')).append hfunction).append takes_pgTable).append
    hcall).append (takes_char '(')).append hname).append (takes_one (by decide)))

theorem takes_back {t : List Char} : (quote ++ blanks ++ char ',').Takes d.back t :=
  ((takes_one (by decide)).append
    (takes_blanks d.commaGap.blank (forall_head?_cons (by decide)))).append (takes_char ',')

theorem takes_tableName {t : List Char} (ht : ∀ c ∈ t.head?, c = '"') :
    (plus (noneOf "'\"")).Takes d.name t := by
  refine takes_loop_one (fun c hc => ?_) (List.length_pos_of_ne_nil d.name_ne_nil) fun c hc => ?_
  · simp [d.name_unquoted c hc]
  · rw [ht c hc]
    decide

/-- The head of a definition is found, with the variable and the name of the table, if the variable
has no dollar sign. -/
theorem exists_matchHere_builderHead (hword : ∀ c ∈ d.variableName.chars, isWord c = true)
    (t : List Char) :
    ∃ m, builderHead.matchHere none 0 (d.head ++ t) = some m ∧ m.stop = d.head.length ∧
      m.name 1 = d.variableName.string ∧ m.name 2 = String.ofList d.name := by
  generalize htext : d.head ++ t = text
  let start : Cursor := ⟨none, 0, text, []⟩
  have hrun : builderHead.matchHere none 0 text =
      (lit "export" ++ blanks1 ++ lit "const" ++ blanks1).run start fun e =>
        Pattern.name.run e fun f =>
          (blanks ++ char '=' ++ blanks ++ builderFunction ++ blanks ++ char '(' ++ blanks ++
            quote).run (f.record 1 e) fun g =>
              (plus (noneOf "'\"")).run g fun h =>
                (quote ++ blanks ++ char ',').run (h.record 2 g) fun c =>
                  some ⟨0, c.offset, text, c.captures⟩ := rfl
  have hmiddle : ∀ c ∈ (d.middle ++ (d.name ++ (d.back ++ t))).head?, isWord c = false := by
    simp only [TableText.middle, List.append_assoc]
    exact Blanks.head_append _ (forall_head?_cons (by decide))
  have hfront : ∀ c ∈ (d.variableName.chars ++ (d.middle ++ (d.name ++ (d.back ++ t)))).head?,
      isBlank c = false := by
    obtain ⟨x, rest, hx⟩ := List.exists_cons_of_ne_nil d.variableName.ne_nil
    rw [hx] at hword ⊢
    exact forall_head?_cons (isBlank_eq_false_of_isWord (hword x List.mem_cons_self))
  have hvariable : Pattern.name.Takes d.variableName.chars
      (d.middle ++ (d.name ++ (d.back ++ t))) :=
    takes_name d.variableName.ne_nil hword hmiddle
  refine ⟨_, hrun.trans (takes_front d hfront _ _ _ _ ?_ (hvariable _ _ _ _ rfl
    (takes_middle d _ _ _ _ rfl (takes_tableName d (forall_head?_cons rfl) _ _ _ _ rfl
      (takes_back d _ _ _ _ rfl rfl))))), ?_, ?_, ?_⟩
  · simp [start, ← htext, TableText.head]
  · simp [TableText.head, Cursor.record, start, Nat.add_assoc]
  · exact congrArg String.ofList Capture.text_eq
  · exact congrArg String.ofList Capture.text_eq

end Head

/-! ## The columns -/

theorem find?_append {w t : List Char} (hw : '=' ∉ w) :
    Text.find? ['=', '>'] (w ++ '=' :: '>' :: t) = some w.length := by
  induction w with
  | nil => rfl
  | cons c w ih =>
    obtain ⟨hne, hw⟩ := not_or.mp (mt List.mem_cons.mpr hw)
    rw [List.cons_append, Text.find?, if_neg, ih hw]
    · rfl
    · simp [beginsWith, List.isPrefixOf, hne]

/-- **The brace that is found behind the name of the table** is the one that opens the object
literal, in either form. -/
theorem columnsStart?_chars (f : ColumnsForm) (t : List Char) :
    columnsStart? (f.chars ++ t) = some f.opening.length := by
  have hfree : ∀ b : Blanks, ∀ c ∈ b.chars, (c != '{' && c != '(') = true := by
    intro b c hc
    have hblank := b.blank c hc
    have hbrace : c ≠ '{' := by
      rintro rfl
      exact absurd hblank (by decide)
    have hparen : c ≠ '(' := by
      rintro rfl
      exact absurd hblank (by decide)
    simp [hbrace, hparen]
  cases f with
  | literal space =>
    have hbefore : (space.chars ++ '{' :: t).takeWhile (fun c => c != '{' && c != '(') =
        space.chars := takeWhile_append (hfree space) (forall_head?_cons (by decide))
    simp only [columnsStart?, ColumnsForm.chars, ColumnsForm.opening, List.append_assoc,
      List.singleton_append, hbefore, List.drop_left]
  | callback space parameter simple gap arrowGap braceGap =>
    let arrow := '(' :: (parameter ++ ')' :: gap.chars)
    let call := arrowGap.chars ++ '(' :: braceGap.chars
    have hopening : ColumnsForm.opening (.callback space parameter simple gap arrowGap braceGap) =
        space.chars ++ (arrow ++ '=' :: '>' :: call) := by
      simp [ColumnsForm.opening, arrow, call]
    have hbefore : (space.chars ++ (arrow ++ '=' :: '>' :: (call ++ '{' :: t))).takeWhile
        (fun c => c != '{' && c != '(') = space.chars :=
      takeWhile_append (hfree space) (forall_head?_cons (by decide))
    have harrow : '=' ∉ arrow := by
      have hgap : '=' ∉ gap.chars := fun h => absurd (gap.blank _ h) (by decide)
      simp [arrow, simple, hgap]
    have hskipped : (call ++ '{' :: t).takeWhile (fun c => isBlank c || c == '(') = call := by
      refine takeWhile_append (fun c hc => ?_) (forall_head?_cons (by decide))
      rcases List.mem_append.mp hc with hc | hc
      · simp [arrowGap.blank c hc]
      · rcases List.mem_cons.mp hc with rfl | hc
        · rfl
        · simp [braceGap.blank c hc]
    have hdrop : (space.chars ++ (arrow ++ '=' :: '>' :: (call ++ '{' :: t))).drop
        (space.chars.length + arrow.length + 2) = call ++ '{' :: t := by
      have hsplit : space.chars ++ (arrow ++ '=' :: '>' :: (call ++ '{' :: t)) =
          (space.chars ++ (arrow ++ ['=', '>'])) ++ (call ++ '{' :: t) := by simp
      rw [hsplit]
      refine List.drop_left' ?_
      simp [Nat.add_assoc]
    have hfind : Text.find? ['=', '>'] (arrow ++ '=' :: '>' :: (call ++ '{' :: t)) =
        some arrow.length := find?_append harrow
    have hcolumns : columnsStart? (space.chars ++ (arrow ++ '=' :: '>' :: (call ++ '{' :: t))) =
        some (space.chars.length + arrow.length + 2 + call.length) := by
      unfold columnsStart?
      simp only [hbefore, List.drop_left]
      rw [List.cons_append] at hfind hdrop ⊢
      simp only [hfind, hdrop, hskipped]
      rw [← List.drop_drop, hdrop, List.drop_left]
      rfl
    rw [ColumnsForm.chars, hopening]
    simpa [Nat.add_assoc, Nat.add_comm, Nat.add_left_comm] using hcolumns

/-! ## The table -/

section Table

variable (d : TableText)

/-- **The columns that are read are those that are written**, in either form. -/
theorem names_builderColumns (f : ColumnsForm) :
    (builderColumns (d.text f) d.head.length).names = d.columns.names := by
  have hkeys : (objectKeys (d.text f) (d.head.length + f.opening.length + 1) 0).map ObjectKey.key =
      d.columns.names := by
    have hread := keys_objectText d.columns (d.head ++ f.chars) d.after
    rwa [List.append_assoc, List.length_append, ColumnsForm.chars, List.length_append,
      ← Nat.add_assoc] at hread
  rw [builderColumns, TableText.text, List.drop_left, columnsStart?_chars, ← TableText.text]
  have hdistinct := d.distinct
  rw [← hkeys] at hdistinct ⊢
  dsimp only
  rw [Catalog.names, Catalog.entries_ofList, List.map_map]
  · rfl
  · rwa [List.map_map]

/-- **The table that is read of its definition**, if its variable has no dollar sign. -/
theorem head?_builderTables (f : ColumnsForm) (file : String)
    (hword : ∀ c ∈ d.variableName.chars, isWord c = true) :
    ∃ t, (builderTables (d.text f) file).head? = some t ∧ t.name = String.ofList d.name ∧
      t.variableName = some d.variableName.string ∧ t.columns.names = d.columns.names := by
  obtain ⟨m, hm, hstop, hvariable, hname⟩ :=
    exists_matchHere_builderHead d hword (f.chars ++ (d.columns.chars ++ d.after))
  have hfirst : ((builderHead.findAll (d.text f)).head?) = some m := by
    obtain ⟨x, rest, hx⟩ : ∃ x rest, d.text f = x :: rest := ⟨'e', _, rfl⟩
    rw [findAll, hx, findScan, ← hx, TableText.text, hm]
    rfl
  refine ⟨_, by rw [builderTables, List.head?_map, hfirst]; rfl, hname, ?_, ?_⟩
  · exact congrArg some hvariable
  · dsimp only
    rw [hstop, names_builderColumns]

theorem recordsOnly_builderHead :
    builderHead.RecordsOnly 1 fun w => ∀ c ∈ w, isWord c = true := by
  have hname : (capture 1 Pattern.name).RecordsOnly 1 fun w => ∀ c ∈ w, isWord c = true := by
    refine ⟨trivial, fun _ c e w he hread => ?_⟩
    obtain ⟨v, hv, -, hword⟩ := exists_reads_of_mem_plus he
    obtain rfl : v = w := List.append_cancel_right (hv.rest_eq.symm.trans hread.rest_eq)
    exact hword
  have hfunction : builderFunction.RecordsOnly 1 fun w => ∀ c ∈ w, isWord c = true :=
    recordsOnly_anyOf (List.forall_mem_map.mpr fun s _ => recordsOnly_lit s)
  unfold builderHead
  simp [hname, hfunction, blanks, blanks1, quoted, quote, oneOf, noneOf, Pattern.star, plus, char]

/-- A variable that is bound to a table has no dollar sign. -/
theorem isWord_of_mem_builderTables {content : List Char} {file : String} {t : Table}
    (ht : t ∈ builderTables content file) {v : KeyName} (hv : t.variableName = some v.string) :
    ∀ c ∈ v.chars, isWord c = true := by
  obtain ⟨m, hm, rfl⟩ := List.mem_map.mp ht
  have hgroup : m.group 1 = v.chars := String.ofList_injective (Option.some.inj hv)
  rcases group_of_mem_findAll recordsOnly_builderHead hm with hnil | hword
  · exact absurd (hgroup.symm.trans hnil) v.ne_nil
  · rwa [hgroup] at hword

end Table

end PlanAudit.Sql
