import PlanAudit.Proofs.Prisma.Passes
import PlanAudit.Proofs.Prisma.Written

/-!
# Reading a schema back

A schema that is written line by line is read as it was written: its models in their order, in each
the fields in their order with their types and list marks, and its enumerations.  Fields whose names
are keywords are the exception: a line that starts with a keyword counts as the start of a block.

## Main definitions

* `FieldText.isOrdinary`: a field whose name is no keyword
* `SchemaText.ReadAs kept`: what a schema is read as, if of its fields those in `kept` are read

## Main results

* `exists_matchStart_fieldLine`: what is read of a line that declares a field
* `findInLines_modelBlock`, `findInLines_enumHead`: the blocks that are found
* `parse_text`: a schema is read as it was written, but for fields that are named like keywords
* `keyword_field_left_out`: such a field is not read
-/

namespace PlanAudit.Prisma

open Text Pattern

/-! ## Lines inside a model -/

/-- The brackets behind a type are recorded where they stand, and nothing else is. -/
theorem run_listMark {α : Type} (mark : Mark) {c : Cursor} {after : List Char}
    (hrest : c.rest = mark.chars ++ after) (hbracket : ∀ x ∈ after.head?, x ≠ '[')
    (next : Cursor → α) :
    (opt (capture 3 (lit "[]"))).run c (fun d => some (next d)) =
      some (next (if mark = .list then (c.behind ['[', ']'] after).record 3 c else c)) := by
  have hnone (h : ¬ ['[', ']'] <+: c.rest) (next' : Cursor → Option α) :
      (capture 3 (lit "[]")).run c next' = none := run_lit_eq_none _ h
  rw [run_opt]
  cases mark with
  | single =>
    rw [hnone]
    · rfl
    · rintro ⟨rest, hbrackets⟩
      rw [hrest] at hbrackets
      exact hbracket '[' (congrArg List.head? hbrackets).symm rfl
  | optional =>
    rw [hnone]
    · rfl
    · rintro ⟨rest, hbrackets⟩
      rw [hrest] at hbrackets
      cases hbrackets
  | list =>
    have htaken := takes_lit "[]" α c
      (fun d => if (d.record 3 c).offset = c.offset then none else some (next (d.record 3 c))) _
      hrest (if_neg (by simp [Cursor.record]))
    exact (congrArg (Option.or · _) htaken).trans rfl

/-- **What is read of a line that declares a field**: its name, its type and whether the brackets
follow the type. -/
theorem exists_matchStart_fieldLine (f : FieldText) (after : List Char)
    (hword : ∀ c ∈ after.head?, isWord c = false) (hbracket : ∀ c ∈ after.head?, c ≠ '[') :
    ∃ m, fieldLine.matchStart
        (f.name.chars ++ (f.gap.chars ++ (f.type.chars ++ (f.mark.chars ++ after)))) = some m ∧
      m.name 1 = f.name.string ∧ m.name 2 = f.type.string ∧
      (m.capture? 3).isSome = decide (f.mark = .list) := by
  generalize htext : f.name.chars ++ (f.gap.chars ++ (f.type.chars ++ (f.mark.chars ++ after))) =
    text
  let start : Cursor := ⟨none, 0, text, []⟩
  have hrun : fieldLine.matchStart text =
      Pattern.name.run start fun d => blanks1.run (d.record 1 start) fun e =>
        Pattern.name.run e fun g => (opt (capture 3 (lit "[]"))).run (g.record 2 e) fun c =>
          some ⟨0, c.offset, text, c.captures⟩ := rfl
  have hname : Pattern.name.Takes f.name.chars
      (f.gap.chars ++ (f.type.chars ++ (f.mark.chars ++ after))) :=
    takes_word f.name (f.behind_name _)
  have hgap : blanks1.Takes f.gap.chars (f.type.chars ++ (f.mark.chars ++ after)) :=
    takes_blanks1 f.gap_ne_nil f.gap.blank (f.type.head_append _)
  have htype : Pattern.name.Takes f.type.chars (f.mark.chars ++ after) :=
    takes_word f.type (f.mark.head_append hword)
  refine ⟨_, hrun.trans (hname _ _ _ _ htext.symm (hgap _ _ _ _ rfl (htype _ _ _ _ rfl
    (run_listMark f.mark rfl hbracket _)))), ?_, ?_, ?_⟩
  · subst htext
    cases f.mark <;> exact congrArg String.ofList Capture.text_eq
  · cases f.mark <;> exact congrArg String.ofList Capture.text_eq
  · cases f.mark <;> rfl

/-- The field that is declared by the line, in a schema with models of the given names. -/
def FieldText.toField (models : List String) (f : FieldText) : Field :=
  { name := f.name.string
    type := f.type.string
    isList := decide (f.mark = .list)
    isRelation := models.contains f.type.string || contains relationMark (strip f.chars) }

/-- The name of the field is no keyword. -/
def FieldText.isOrdinary (f : FieldText) : Bool := !blockKeywords.contains f.name.string

/-- A line that declares nothing declares no field. -/
theorem fieldOf?_filler (models : List String) (f : Filler) :
    fieldOf? models (strip f.chars) = none := by
  have hstart : stripStart f.chars = f.text := by
    rw [Filler.chars, stripStart_append f.indent.blank]
    rcases f.text_cases with htext | ⟨c, rest, htext, hc⟩
    · rw [htext]
      rfl
    · rw [htext]
      exact stripStart_eq_self (forall_head?_cons (head_of_attribute hc.symm).1)
  -- What makes the line a comment or an attribute is not stripped.
  have hkept : ∀ x y rest, f.text = x :: y :: rest → isBlank y = false →
      strip f.chars = x :: y :: stripEnd rest := by
    intro x y rest htext hy
    rw [strip, hstart, htext]
    exact dropEndWhile_append (w := [x, y]) (forall_head?_cons (t := []) hy)
  rcases f.ignored with htext | hslash | hat
  · rw [strip, hstart, htext]
    rfl
  · obtain ⟨rest, hrest⟩ := List.isPrefixOf_iff_prefix.mp hslash
    rw [hkept '/' '/' rest hrest.symm (by decide)]
    rfl
  · obtain ⟨rest, hrest⟩ := List.isPrefixOf_iff_prefix.mp hat
    rw [hkept '@' '@' rest hrest.symm (by decide)]
    rfl

/-- The line of a field without the white space around it. -/
theorem strip_fieldText (f : FieldText) :
    strip f.chars = f.name.chars ++ (f.gap.chars ++ (f.type.chars ++ (f.mark.chars ++
      stripEnd f.trailing.chars))) := by
  have hlast : ∀ c ∈ (f.name.chars ++ (f.gap.chars ++ (f.type.chars ++ f.mark.chars))).getLast?,
      isBlank c = false := by
    have htype : f.type.chars ++ f.mark.chars ≠ [] := by simp [f.type.ne_nil]
    rw [List.getLast?_append_of_ne_nil _ (by simp [htype]),
      List.getLast?_append_of_ne_nil _ htype]
    cases f.mark with
    | single =>
      intro c hc
      rw [Mark.chars, List.append_nil] at hc
      exact isBlank_eq_false_of_isWord (f.type.word c (List.mem_of_getLast? hc))
    | list | optional =>
      rw [List.getLast?_append_of_ne_nil _ (by decide)]
      exact fun c hc => Option.some.inj hc ▸ rfl
  have hstart : stripStart f.chars =
      f.name.chars ++ (f.gap.chars ++ (f.type.chars ++ f.mark.chars)) ++ f.trailing.chars := by
    rw [FieldText.chars, stripStart_append f.indent.blank, stripStart_eq_self fun c hc =>
      isBlank_eq_false_of_isWord (f.name.head_word _ c hc)]
    simp [FieldText.rest]
  rw [strip, hstart, stripEnd, dropEndWhile_append hlast]
  simp [stripEnd]

/-- **A line that declares a field is read as it is written**, unless the field is named like a
keyword. -/
theorem fieldOf?_fieldText (models : List String) (f : FieldText) :
    fieldOf? models (strip f.chars) = if f.isOrdinary then some (f.toField models) else none := by
  have hcases := head_stripEnd f.trailing.head_cases
  obtain ⟨m, hm, hname, htype, hlist⟩ := exists_matchStart_fieldLine f (stripEnd f.trailing.chars)
    (fun c hc => (hcases c hc).elim isWord_eq_false_of_isBlank fun h => (head_of_attribute h).2.1)
    (fun c hc => by rintro rfl; exact absurd (hcases _ hc) (by decide))
  have hbegin : (beginsWith "@@".toList (strip f.chars) || beginsWith "//".toList (strip f.chars)) =
      false := by
    -- The line starts with the name of the field.
    obtain ⟨x, rest, hx⟩ := List.exists_cons_of_ne_nil f.name.ne_nil
    have hword : isWord x = true := f.name.word x (by rw [hx]; exact List.mem_cons_self)
    have hat : '@' ≠ x := by rintro rfl; exact absurd hword (by decide)
    have hslash : '/' ≠ x := by rintro rfl; exact absurd hword (by decide)
    rw [strip_fieldText, hx]
    simp [beginsWith, List.isPrefixOf, hat, hslash]
  rw [← strip_fieldText] at hm
  rw [fieldOf?, hbegin, if_neg Bool.false_ne_true, hm]
  dsimp only
  rw [hname, htype, hlist]
  unfold FieldText.isOrdinary
  cases blockKeywords.contains f.name.string <;> rfl

/-! ## The body of a model -/

namespace ModelText

variable (m : ModelText)

/-- The lines of the body: what follows the brace of the head, the members, and what stands in front
of the closing brace. -/
def bodyLines : List (List Char) :=
  m.tail.chars :: ((m.members.map (Sum.elim .filler .field)).map Line.text ++ [[]])

/-- The text between the brace of the head and the closing brace. -/
def body : List Char := ['\n'].intercalate m.bodyLines

theorem mem_bodyLines {line : List Char} : line ∈ m.bodyLines ↔ line = m.tail.chars ∨
    (∃ member ∈ m.members, Line.text (Sum.elim .filler .field member) = line) ∨ line = [] := by
  simp [bodyLines]

theorem body_eq :
    m.body = m.tail.chars ++
      (linesAfter ((m.members.map (Sum.elim .filler .field)).map Line.text) ++ ['\n']) := by
  rw [body, bodyLines, intercalate_lineFeed, linesAfter_append]
  rfl

theorem splitOn_body : m.body.splitOn '\n' = m.bodyLines := by
  refine List.splitOn_intercalate '\n' (fun line hline => ?_) (by simp [bodyLines])
  rcases m.mem_bodyLines.mp hline with rfl | ⟨member, -, rfl⟩ | rfl
  · exact m.tail.unbroken_chars
  · exact Line.unbroken _
  · exact List.not_mem_nil

/-- No line of the body starts with a brace. -/
theorem head_bodyLines : ∀ line ∈ m.bodyLines, line.head? ≠ some '}' := by
  have hblank : ∀ w : Spacing, ∀ c ∈ w.chars, c ≠ '}' := by
    rintro w c hc rfl
    exact absurd (w.blank _ hc) (by decide)
  have hfiller : ∀ f : Filler, ∀ c ∈ f.chars.head?, c ≠ '}' := fun f => by
    refine forall_head?_append (hblank f.indent) ?_
    rcases f.text_cases with htext | ⟨c, rest, htext, hc⟩
    · rw [htext]
      exact fun c hc => nomatch hc
    · rw [htext]
      exact forall_head?_cons (by rcases hc with rfl | rfl <;> decide)
  have hfield : ∀ f : FieldText, ∀ c ∈ f.chars.head?, c ≠ '}' := fun f => by
    refine forall_head?_append (hblank f.indent) fun c hc => ?_
    rintro rfl
    exact absurd (f.name.head_word _ _ hc) (by decide)
  intro line hline
  rcases m.mem_bodyLines.mp hline with rfl | ⟨member, -, rfl⟩ | rfl
  · exact fun h => hfiller m.tail _ h rfl
  · cases member with
    | inl f => exact fun h => hfiller f _ h rfl
    | inr f => exact fun h => hfield f _ h rfl
  · exact fun h => nomatch h

/-- **The fields that are read of a body** are those that are written, but for those that are named
like keywords. -/
theorem filterMap_fieldOf?_body (models : List String) :
    (m.body.splitOn '\n').filterMap (fun line => fieldOf? models (strip line)) =
      (m.entries.filter FieldText.isOrdinary).map (FieldText.toField models) := by
  let read (line : List Char) : Option Field := fieldOf? models (strip line)
  have hempty : read [] = none := rfl
  have htail : read m.tail.chars = none := fieldOf?_filler models m.tail
  have hmembers : ∀ members : List (Filler ⊕ FieldText),
      ((members.map (Sum.elim .filler .field)).map Line.text).filterMap read =
        ((members.filterMap Sum.getRight?).filter FieldText.isOrdinary).map
          (FieldText.toField models) := by
    intro members
    induction members with
    | nil => rfl
    | cons member members ih =>
      rw [List.map_cons, List.map_cons]
      cases member with
      | inl f =>
        have hread : read (Line.text (.filler f)) = none := fieldOf?_filler models f
        rw [Sum.elim_inl, List.filterMap_cons_none hread, List.filterMap_cons_none rfl, ih]
      | inr f =>
        have hread : read (Line.text (.field f)) = _ := fieldOf?_fieldText models f
        rw [Sum.elim_inr, List.filterMap_cons_some (f := Sum.getRight?) rfl, List.filter_cons]
        split at hread
        · rename_i hordinary
          rw [List.filterMap_cons_some hread, if_pos hordinary, List.map_cons, ih]
        · rename_i hordinary
          rw [List.filterMap_cons_none hread, if_neg hordinary, ih]
  rw [splitOn_body, bodyLines, List.filterMap_cons_none htail, List.filterMap_append,
    List.filterMap_cons_none hempty, hmembers]
  exact List.append_nil _

end ModelText

/-! ## The blocks that are found -/

theorem Line.eq_head_of_head? {kind : BlockKind} {l : Line} {h : HeadText}
    (hl : l.head? kind = some h) : ∃ tail, l = .head kind h tail := by
  cases l with
  | head other b tail =>
    rw [Line.head?] at hl
    split at hl
    · rename_i heq
      exact ⟨tail, by rw [heq, Option.some.inj hl]⟩
    · cases hl
  | filler | field | value | close => cases hl

section Find

variable {kind : BlockKind} {p : Pattern} {before : Option Char}

/-- A line that is no head of a block of the kind is passed over. -/
theorem findInLines_cons_of_head? (hp : Heads kind p) {l : Line} (hl : l.head? kind = none)
    (offset : Nat) (ls : List Line) :
    p.findInLines before offset ((l :: ls).map Line.text) =
      p.findInLines (some '\n') (offset + l.text.length + 1) (ls.map Line.text) :=
  findInLines_cons_of_none hp.atLineStart l.unbroken (hp.matchHere_eq_none (l.not_opens hl ls))

/-- So are any number of such lines. -/
theorem exists_findInLines_append (hp : Heads kind p) {first : List Line}
    (hfirst : ∀ l ∈ first, l.head? kind = none) (hstart : StartsLine before) (offset : Nat)
    (ls : List Line) :
    ∃ before' offset', StartsLine before' ∧
      p.findInLines before offset ((first ++ ls).map Line.text) =
        p.findInLines before' offset' (ls.map Line.text) := by
  induction first generalizing before offset with
  | nil => exact ⟨before, offset, hstart, rfl⟩
  | cons l first ih =>
    obtain ⟨hl, hfirst⟩ := List.forall_mem_cons.mp hfirst
    obtain ⟨before', offset', hstart', hfind⟩ :=
      ih hfirst (Or.inr rfl) (offset + l.text.length + 1)
    exact ⟨before', offset', hstart', (findInLines_cons_of_head? hp hl offset _).trans hfind⟩

/-- **The enumerations that are found** are those whose heads are among the lines. -/
theorem findInLines_enumHead (ls : List Line) (hstart : StartsLine before) (offset : Nat) :
    (enumHead.findInLines before offset (ls.map Line.text)).map (Match.name · 1) =
      (ls.filterMap (Line.head? .enum)).map (·.name.string) := by
  induction ls generalizing before offset with
  | nil => rfl
  | cons l ls ih =>
    cases hl : l.head? .enum with
    | none =>
      rw [findInLines_cons_of_head? heads_enumHead hl, List.filterMap_cons_none hl]
      exact ih (Or.inr rfl) _
    | some h =>
      obtain ⟨tail, rfl⟩ := Line.eq_head_of_head? hl
      obtain ⟨m, hm, hstop, hname⟩ := exists_matchHere_enumHead h hstart offset
        (tail.chars ++ linesAfter (ls.map Line.text))
      have hfind := findScan_of_match heads_enumHead.atLineStart hm hstop
        (h.heading.getLast?_chars .enum) (by decide) tail.unbroken_chars
      rw [List.filterMap_cons_some hl, List.map_cons, List.map_cons, findInLines, Line.text,
        List.append_assoc]
      exact (congrArg (List.map _) hfind).trans (congrArg₂ List.cons hname (ih (Or.inr rfl) _))

/-- What is found of a model: its name and its body. -/
def ModelText.FoundAs (m : ModelText) (found : Match) : Prop :=
  found.name 1 = m.name ∧ found.group 2 = m.body

/-- A model is found as a whole, and the search goes on with the line behind it. -/
theorem exists_findInLines_model (m : ModelText) (hstart : StartsLine before) (offset : Nat)
    (ls : List Line) :
    ∃ found offset', m.FoundAs found ∧
      modelBlock.findInLines before offset ((m.lines .model .field ++ ls).map Line.text) =
        found :: modelBlock.findInLines (some '\n') offset' (ls.map Line.text) := by
  obtain ⟨found, hfound, hstop, hname, hbody⟩ := exists_matchHere_modelBlock m.head hstart offset
    m.body (m.close.chars ++ linesAfter (ls.map Line.text))
    (m.splitOn_body ▸ m.head_bodyLines) (by rw [m.body_eq]; simp)
  have hlast : (m.head.chars .model ++ (m.body ++ ['}'])).getLast? = some '}' := by
    simp only [← List.append_assoc, List.getLast?_concat]
  -- The text from the head on: the block, what follows its brace, and the lines after it.
  have htext : Line.text (.head .model m.head m.tail) ++ linesAfter
      ((m.members.map (Sum.elim Line.filler Line.field) ++ [Line.close m.close] ++ ls).map
        Line.text) =
      m.head.chars .model ++ (m.body ++ ['}']) ++
        (m.close.chars ++ linesAfter (ls.map Line.text)) := by
    rw [m.body_eq]
    simp [Line.text]
  have hfind := findScan_of_match heads_modelBlock.atLineStart
    (by rw [List.append_assoc, List.append_assoc]; exact hfound) hstop hlast (by decide)
    m.close.unbroken_chars
  refine ⟨found, _, ⟨hname, hbody⟩, Eq.trans ?_ hfind⟩
  rw [BlockText.lines, List.cons_append, List.map_cons, findInLines, htext]

/-- The only head of a block among its lines is its own. -/
theorem filterMap_head?_lines {α : Type} (other : BlockKind) {line : α → Line} (b : BlockText α)
    (hline : ∀ a, (line a).head? kind = none) :
    (b.lines other line).filterMap (Line.head? kind) = if other = kind then [b.head] else [] := by
  have hbehind : (b.members.map (Sum.elim Line.filler line) ++ [Line.close b.close]).filterMap
      (Line.head? kind) = [] := by
    refine List.filterMap_eq_nil_iff.mpr fun l hl => ?_
    rcases List.mem_append.mp hl with hl | hl
    · obtain ⟨member, -, rfl⟩ := List.mem_map.mp hl
      cases member with
      | inl f => rfl
      | inr a => exact hline a
    · rw [List.mem_singleton.mp hl]
      rfl
  rw [BlockText.lines, List.filterMap_cons, hbehind, Line.head?]
  by_cases hkind : other = kind <;> simp [hkind]

/-- **The models that are found** are those that are written. -/
theorem findInLines_modelBlock (items : List Item) (hstart : StartsLine before) (offset : Nat) :
    List.Forall₂ ModelText.FoundAs (items.filterMap Item.model?)
      (modelBlock.findInLines before offset ((items.flatMap Item.lines).map Line.text)) := by
  induction items generalizing before offset with
  | nil => exact List.Forall₂.nil
  | cons item items ih =>
    rw [List.flatMap_cons]
    -- Only a model has a line that a model can be found at.
    have hpassed (hnone : (item.lines).filterMap (Line.head? .model) = [])
        (hmodel : item.model? = none) :
        List.Forall₂ ModelText.FoundAs ((item :: items).filterMap Item.model?)
          (modelBlock.findInLines before offset
            ((item.lines ++ items.flatMap Item.lines).map Line.text)) := by
      obtain ⟨before', offset', hstart', hfind⟩ := exists_findInLines_append heads_modelBlock
        (List.filterMap_eq_nil_iff.mp hnone) hstart offset (items.flatMap Item.lines)
      rw [hfind, List.filterMap_cons_none hmodel]
      exact ih hstart' offset'
    cases item with
    | model m =>
      obtain ⟨found, offset', hm, hfind⟩ := exists_findInLines_model m hstart offset
        (items.flatMap Item.lines)
      rw [List.filterMap_cons_some (f := Item.model?) rfl, Item.lines, hfind]
      exact List.Forall₂.cons hm (ih (Or.inr rfl) offset')
    | filler f => exact hpassed rfl rfl
    | enum e => exact hpassed (filterMap_head?_lines .enum e fun _ => rfl) rfl

end Find

/-- The heads of enumerations in a schema are those of its enumerations. -/
theorem filterMap_head?_items (items : List Item) :
    (items.flatMap Item.lines).filterMap (Line.head? .enum) =
      (items.filterMap Item.enum?).map (·.head) := by
  induction items with
  | nil => rfl
  | cons item items ih =>
    rw [List.flatMap_cons, List.filterMap_append, ih]
    cases item with
    | filler f => rfl
    | model m =>
      rw [Item.lines, filterMap_head?_lines .model m.toBlockText fun _ => rfl]
      rfl
    | enum e =>
      rw [Item.lines, filterMap_head?_lines .enum e fun _ => rfl]
      rfl

/-! ## The schema that is read -/

/-- What a field is read as: an entry with its name, its type and its list mark. -/
structure FieldText.ReadAs (f : FieldText) (e : String × Field) : Prop where
  key_eq : e.1 = f.name.string
  name_eq : e.2.name = f.name.string
  type_eq : e.2.type = f.type.string
  isList_iff : e.2.isList = true ↔ f.mark = .list

/-- What a model is read as, if of its fields those in `kept` are read: an entry with its name and
these fields in their order. -/
structure ModelText.ReadAs (kept : FieldText → Bool) (m : ModelText) (e : String × Model) :
    Prop where
  key_eq : e.1 = m.name
  name_eq : e.2.name = m.name
  fields : List.Forall₂ FieldText.ReadAs (m.entries.filter kept) e.2.fields.entries

/-- What a schema is read as, if of its fields those in `kept` are read: its models in their order,
and the names of its enumerations. -/
structure SchemaText.ReadAs (kept : FieldText → Bool) (s : SchemaText) (schema : Schema) :
    Prop where
  models : List.Forall₂ (ModelText.ReadAs kept) s.models schema.models.entries
  enums_eq : schema.enums = s.enums.map BlockText.name

/-- The fields of a model that is found. -/
theorem entries_fields_modelOf {m : ModelText} {found : Match} (h : m.FoundAs found)
    (models : List String) :
    (modelOf models found).fields.entries = (m.entries.filter FieldText.isOrdinary).map
      fun f => (f.name.string, f.toField models) := by
  have hpairs : (((found.group 2).splitOn '\n').filterMap fun line =>
      fieldOf? models (strip line)).map (fun f => (f.name, f)) =
      (m.entries.filter FieldText.isOrdinary).map fun f => (f.name.string, f.toField models) := by
    rw [h.2, m.filterMap_fieldOf?_body, List.map_map]
    rfl
  rw [modelOf, hpairs]
  refine Catalog.entries_ofList ?_
  rw [List.map_map]
  exact (List.filter_sublist.map _).nodup m.distinct

theorem readAs_modelOf {m : ModelText} {found : Match} (h : m.FoundAs found)
    (models : List String) :
    m.ReadAs FieldText.isOrdinary (found.name 1, modelOf models found) where
  key_eq := h.1
  name_eq := h.1
  fields := by
    rw [entries_fields_modelOf h, List.forall₂_map_right_iff]
    exact List.forall₂_same.mpr fun f _ => ⟨rfl, rfl, rfl, decide_eq_true_iff⟩

theorem findAll_lines {kind : BlockKind} {p : Pattern} (hp : Heads kind p) (ls : List Line) :
    p.findAll (['\n'].intercalate (ls.map Line.text)) =
      p.findInLines none 0 (ls.map Line.text) := by
  cases ls with
  | nil =>
    have hnone : p.matchHere none 0 [] = none :=
      hp.matchHere_eq_none (not_opens_of_head fun c hc => nomatch hc)
    exact congrArg Option.toList hnone
  | cons l ls =>
    rw [List.map_cons, intercalate_lineFeed]
    rfl

/-- The models of a schema are found in their order. -/
theorem forall₂_findAll (s : SchemaText) :
    List.Forall₂ ModelText.FoundAs s.models (modelBlock.findAll s.text) := by
  rw [SchemaText.text, findAll_lines heads_modelBlock]
  exact findInLines_modelBlock s.items (Or.inl rfl) 0

/-- The names of the models are distinct, so that the catalog takes all models over. -/
theorem entries_models_parse (s : SchemaText) :
    (Schema.parse s.text).models.entries = (modelBlock.findAll s.text).map fun found =>
      (found.name 1, modelOf ((modelBlock.findAll s.text).map (Match.name · 1)) found) := by
  have hnames : s.models.map (·.name) = (modelBlock.findAll s.text).map (Match.name · 1) := by
    rw [← List.forall₂_eq_eq_eq, List.forall₂_map_left_iff, List.forall₂_map_right_iff]
    exact (forall₂_findAll s).imp fun _ _ h => h.1.symm
  rw [parse_eq_ofModels, Schema.ofModels, List.map_map]
  refine Catalog.entries_ofList ?_
  rw [List.map_map]
  exact hnames ▸ s.distinct

/-- **A schema is read as it was written**, but for fields that are named like keywords. -/
theorem parse_text (s : SchemaText) : s.ReadAs FieldText.isOrdinary (Schema.parse s.text) where
  models := by
    rw [entries_models_parse, List.forall₂_map_right_iff]
    exact (forall₂_findAll s).imp fun m found h => readAs_modelOf h _
  enums_eq := by
    have henums : (enumHead.findAll s.text).map (Match.name · 1) = s.enums.map BlockText.name := by
      rw [SchemaText.text, findAll_lines heads_enumHead, findInLines_enumHead _ (Or.inl rfl),
        filterMap_head?_items, List.map_map]
      rfl
    rw [parse_eq_ofModels]
    exact henums

/-! ## A field that is named like a keyword -/

/-- Spaces inside a line. -/
def Spacing.spaces (n : Nat) : Spacing where
  chars := List.replicate n ' '
  blank := fun c hc => by
    rw [List.eq_of_mem_replicate hc]
    decide
  unbroken := fun h => absurd (List.eq_of_mem_replicate h) (by decide)

/-- The line without characters. -/
def Filler.empty : Filler := ⟨.spaces 0, [], List.not_mem_nil, Or.inl rfl⟩

/-- A model with one field, which is named like a keyword. -/
def keywordField : SchemaText where
  items := [.model
    { head := ⟨.spaces 1, by decide, .ofString "Plan" (by decide), .spaces 1⟩
      tail := .empty
      members := [.inr
        { indent := .spaces 2
          name := .ofString "model" (by decide)
          gap := .spaces 1
          gap_ne_nil := by decide
          type := .ofString "String" (by decide)
          mark := .single
          trailing := ⟨[], List.not_mem_nil, nofun⟩ }]
      close := .empty
      distinct := by decide }]
  distinct := by decide

example : String.ofList keywordField.text = "model Plan \x7b\n  model String\n\x7d" := by decide

/-- **A field that is named like a keyword is not read.** -/
theorem keyword_field_left_out :
    ¬ keywordField.ReadAs (fun _ => true) (Schema.parse keywordField.text) := by
  intro h
  have hread : (Schema.parse keywordField.text).models.entries.map
      (fun e => e.2.fields.entries.length) = [0] := by decide
  obtain ⟨e, rest, hmodel, -, hentries⟩ := List.forall₂_cons_left_iff.mp h.models
  -- The model has a field as it is written and none as it is read.
  have hone : 1 = e.2.fields.entries.length := hmodel.fields.length_eq
  rw [hentries, List.map_cons, ← hone] at hread
  cases hread

end PlanAudit.Prisma
