import PlanAudit.Proofs.Supabase.Selections

/-!
# Columns of embedded relations

A selection is split outside brackets, but the parentheses of an embedded relation are split at
every comma, and of each fragment counts what stands behind its last colon.  A cast is taken for a
column therefore, and a column of a relation further inside is taken for one of the relation around
it, unless a parenthesis stands next to it in its fragment.

## Main definitions

* `Selection.pairs`: the columns of a selection with the relations that enclose them
* `Selection.shown`: the names that are read in the parentheses of a relation
* `Selection.strays`: those of them that are no columns of the relation
* `Attributed`: every name that is read is a column of the relation to which it is attributed

## Main results

* `columnsIn_chars`: what is read in parentheses
* `selectMentions_eq`: what is read of a selection
* `attributed_iff`: names are attributed well exactly if what strays happens to be a column
* `strays_attributed`: a cast and a column further inside that are attributed to a relation
-/

namespace PlanAudit.Supabase

open Text Pattern

/-! ## What is read -/

/-- The last name of a column. -/
def ColumnText.last (c : ColumnText) : Word := c.cast.getD c.name

/-- The column has neither an alias nor a cast. -/
def ColumnText.isBare (c : ColumnText) : Bool := c.label.isNone && c.cast.isNone

/-- What is read of a column in parentheses.  Its fragment may have an opening parenthesis in front
of it and a closing one behind it. -/
def ColumnText.shown (opened closed : Bool) (c : ColumnText) : List Word :=
  if closed || opened && c.isBare then [] else [c.last]

namespace Selection

/-- Nothing is selected. -/
def isNil : Selection → Bool
  | nil => true
  | _ => false

/-- **The names that are read in the parentheses of a relation.**  The first fragment may have an
opening parenthesis in front, and the last one a closing one behind. -/
def shown (opened closed : Bool) : Selection → List Word
  | nil => []
  | column _ c _ rest => c.shown opened (closed && rest.isNil) ++ rest.shown false closed
  | embed _ _ columns _ rest => columns.shown true true ++ rest.shown false closed

/-- The columns with the relations that enclose them; `owner` encloses the selection. -/
def pairs (owner : String) : Selection → List (String × String)
  | nil => []
  | column _ c _ rest => (owner, c.name.string) :: rest.pairs owner
  | embed _ r columns _ rest => columns.pairs r.name.string ++ rest.pairs owner

/-- The names that are read in the parentheses of a relation and are none of its columns: casts, and
names further inside. -/
def strays : Selection → List Word
  | nil => []
  | column _ c _ rest => c.cast.toList ++ rest.strays
  | embed _ _ columns _ rest => columns.shown true true ++ rest.strays

/-- The parentheses around the selection are read: it is not empty and stands on one line. -/
def IsRead (columns : Selection) : Prop := columns.chars ≠ [] ∧ '\n' ∉ columns.chars

instance (columns : Selection) : Decidable columns.IsRead := inferInstanceAs (Decidable (_ ∧ _))

/-- What strays, with the relations to which it is attributed. -/
def leaks : Selection → List (String × String)
  | nil => []
  | column _ _ _ rest => rest.leaks
  | embed _ r columns _ rest =>
    (if columns.IsRead then columns.strays.map fun w => (r.name.string, w.string) else []) ++
      rest.leaks

/-- The mentions that are read of a selection from the table. -/
def mentions (table : String) : Selection → List Mention
  | nil => []
  | column _ c _ rest =>
    (if c.cast.isNone then [columnMention table c.name.string] else []) ++ rest.mentions table
  | embed _ r columns _ rest =>
    (if columns.IsRead then
      embedMention r.name.string none ::
        (columns.shown false false).map fun w => embedMention r.name.string (some w.string)
    else []) ++ rest.mentions table

end Selection

/-- Every name that is read of a selection from the table is a column of the relation to which it is
attributed. -/
def Attributed (table : String) (s : Selection) : Prop :=
  ∀ m ∈ selectMentions s.chars table, ∀ n, m.name = some n →
    ∃ owner, m.owner = some owner ∧ (owner, n) ∈ s.pairs table

/-! ## Fragments -/

section Fragments

variable {x : Char} {u v w t : List Char}

theorem columnsIn_append (u v : List Char) :
    columnsIn (u ++ ',' :: v) = columnsIn u ++ columnsIn v := by
  simp only [columnsIn, commaParts, List.splitOn_append_cons_self, List.map_append,
    List.filter_append]

/-- A text without commas is one fragment. -/
theorem columnsIn_of_not_mem (h : ',' ∉ t) :
    columnsIn t = [afterColon (strip t)].filter soleName.matchesStart := by
  have hone : t.splitOn ',' = [t] := List.splitOn_eq_singleton h
  rw [columnsIn, commaParts, hone, List.map_singleton, List.map_singleton]

theorem afterColon_eq (t : List Char) : afterColon t = t.rtakeWhile (· != ':') :=
  Plan.afterLast_char ':' t

/-- White space in front of a text is not stripped beyond a character that is none. -/
theorem exists_stripStart_append (hx : isBlank x = false) (u t : List Char) :
    ∃ u', stripStart (u ++ x :: t) = u' ++ x :: t := by
  rw [stripStart, List.dropWhile_append]
  split
  · exact ⟨[], List.dropWhile_cons_of_neg (by simp [hx])⟩
  · exact ⟨_, rfl⟩

/-- The last character of a fragment stands behind its last colon. -/
theorem mem_afterColon_strip (hx : isBlank x = false) (hcolon : x ≠ ':')
    (ht : ∀ c ∈ t, isBlank c = true) (u : List Char) : x ∈ afterColon (strip (u ++ x :: t)) := by
  obtain ⟨u', hu'⟩ := exists_stripStart_append hx u t
  have hstrip : strip (u ++ x :: t) = u' ++ [x] := by
    rw [strip, hu', List.append_cons, stripEnd, dropEndWhile_append (by simp [hx]),
      dropEndWhile_eq_nil ht, List.append_nil]
  rw [hstrip, afterColon_eq, List.rtakeWhile_concat, if_pos (bne_iff_ne.mpr hcolon)]
  simp

/-- A fragment that ends in something else than a name is not read. -/
theorem columnsIn_eq_nil (hcomma : ',' ∉ u ++ x :: t) (hx : isBlank x = false)
    (hword : isWord x = false) (hcolon : x ≠ ':') (ht : ∀ c ∈ t, isBlank c = true) :
    columnsIn (u ++ x :: t) = [] := by
  have hfeed : x ≠ '\n' := by
    rintro rfl
    exact absurd hx (by decide)
  rw [columnsIn_of_not_mem hcomma, List.filter_singleton,
    matchesStart_soleName_eq_false (mem_afterColon_strip hx hcolon ht u) hword hfeed]
  rfl

/-- What stands behind the last colon of a text that ends in a column. -/
theorem afterColon_column (u : List Char) (c : ColumnText) :
    afterColon (u ++ c.chars) =
      if c.isBare then afterColon u ++ c.last.chars else c.last.chars := by
  simp only [afterColon_eq, ColumnText.chars, ColumnText.isBare, ColumnText.last]
  cases hcast : c.cast with
  | some t =>
    have hsplit : u ++ (labelChars c.label ++ (c.name.chars ++ castChars (some t))) =
        (u ++ (labelChars c.label ++ (c.name.chars ++ [':']))) ++ ':' :: t.chars := by
      simp [castChars]
    rw [hsplit, Plan.rtakeWhile_append_cons, Plan.rtakeWhile_eq_self (colon_not_mem t)]
    simp
  | none =>
    rw [castChars, List.append_nil]
    cases hlabel : c.label with
    | some l =>
      have hsplit : u ++ (labelChars (some l) ++ c.name.chars) =
          (u ++ l.chars) ++ ':' :: c.name.chars := by
        simp [labelChars]
      rw [hsplit, Plan.rtakeWhile_append_cons, Plan.rtakeWhile_eq_self (colon_not_mem c.name)]
      simp
    | none =>
      rw [labelChars, List.nil_append, Plan.rtakeWhile_append _ (colon_not_mem c.name)]
      simp

end Fragments

/-! ## Around a selection -/

/-- What stands in front of a selection in its first fragment: white space, behind an opening
parenthesis or not. -/
inductive Front : Bool → List Char → Prop
  | plain {t : List Char} (ht : ∀ c ∈ t, isBlank c = true) : Front false t
  | opened {u t : List Char} (hu : ',' ∉ u) (ht : ∀ c ∈ t, isBlank c = true) :
    Front true (u ++ '(' :: t)

/-- What stands behind a selection in its last fragment: white space, behind a closing parenthesis
or not. -/
inductive Back : Bool → List Char → Prop
  | plain {t : List Char} (ht : ∀ c ∈ t, isBlank c = true) : Back false t
  | closed {u t : List Char} (hu : ',' ∉ u) (ht : ∀ c ∈ t, isBlank c = true) :
    Back true (u ++ ')' :: t)

section Around

variable {opened closed : Bool} {f b t u : List Char}

theorem comma_not_mem_of_blank (ht : ∀ c ∈ t, isBlank c = true) : ',' ∉ t := fun h =>
  absurd (ht _ h) (by decide)

theorem Front.comma_not_mem (h : Front opened f) : ',' ∉ f := by
  cases h with
  | plain ht => exact comma_not_mem_of_blank ht
  | opened hu ht => simp [hu, comma_not_mem_of_blank ht]

theorem Back.comma_not_mem (h : Back closed b) : ',' ∉ b := by
  cases h with
  | plain ht => exact comma_not_mem_of_blank ht
  | closed hu ht => simp [hu, comma_not_mem_of_blank ht]

theorem RelationText.comma_not_mem (r : RelationText) : ',' ∉ r.chars := fun h =>
  absurd (r.isSelector_chars _ h) (by decide)

theorem ColumnText.comma_not_mem (c : ColumnText) : ',' ∉ c.chars := fun h =>
  absurd (c.isSelector_chars _ h) (by decide)

theorem comma_not_mem_blanks (w : Blanks) : ',' ∉ w.chars := comma_not_mem_of_blank w.blank

/-- In front of the columns of a relation stands its parenthesis. -/
theorem Front.relation (h : Front opened f) (before : Blanks) (r : RelationText) :
    Front true (f ++ (before.chars ++ r.chars) ++ ['(']) :=
  .opened (by simp [h.comma_not_mem, comma_not_mem_blanks, r.comma_not_mem])
    (List.forall_mem_nil _)

/-- Behind them stands the other one. -/
theorem Back.relation (h : Back closed b) (after : Blanks) :
    Back true (')' :: (after.chars ++ b)) := by
  cases h with
  | plain ht =>
    exact .closed (u := []) List.not_mem_nil (List.forall_mem_append.mpr ⟨after.blank, ht⟩)
  | @closed u t hu ht =>
    have hback : Back true ((')' :: (after.chars ++ u)) ++ ')' :: t) :=
      .closed (by simp [hu, comma_not_mem_blanks]) ht
    simpa using hback

/-- A column alone: its last name is read. -/
theorem columnsIn_alone (c : ColumnText) (hf : ∀ x ∈ f, isBlank x = true)
    (ht : ∀ x ∈ t, isBlank x = true) : columnsIn (f ++ (c.chars ++ t)) = [c.last.chars] := by
  have hcomma : ',' ∉ f ++ (c.chars ++ t) := by
    simp [comma_not_mem_of_blank hf, comma_not_mem_of_blank ht, c.comma_not_mem]
  have hread : afterColon c.chars = c.last.chars := by
    have hcolumn := afterColon_column [] c
    split at hcolumn <;> exact hcolumn
  rw [columnsIn_of_not_mem hcomma, c.strip_blank hf ht, hread]
  simp [matchesStart_soleName]

/-- A column behind an opening parenthesis: only a colon cuts the parenthesis off. -/
theorem columnsIn_opened (c : ColumnText) (hu : ',' ∉ u) (hf : ∀ x ∈ f, isBlank x = true)
    (ht : ∀ x ∈ t, isBlank x = true) :
    columnsIn ((u ++ '(' :: f) ++ (c.chars ++ t)) = if c.isBare then [] else [c.last.chars] := by
  have hcomma : ',' ∉ (u ++ '(' :: f) ++ (c.chars ++ t) := by
    simp [hu, comma_not_mem_of_blank hf, comma_not_mem_of_blank ht, c.comma_not_mem]
  obtain ⟨u', hu'⟩ := exists_stripStart_append (x := '(') (by decide) u (f ++ (c.chars ++ t))
  have hstart : stripStart ((u ++ '(' :: f) ++ (c.chars ++ t)) =
      ((u' ++ '(' :: f) ++ c.chars) ++ t := by
    simpa using hu'
  have hlast : ∀ x ∈ ((u' ++ '(' :: f) ++ c.chars).getLast?, isBlank x = false := by
    rw [List.getLast?_append_of_ne_nil _ c.chars_ne_nil]
    exact c.getLast_chars
  have hstrip : strip ((u ++ '(' :: f) ++ (c.chars ++ t)) = (u' ++ '(' :: f) ++ c.chars := by
    rw [strip, hstart, stripEnd, dropEndWhile_append hlast, dropEndWhile_eq_nil ht, List.append_nil]
  rw [columnsIn_of_not_mem hcomma, hstrip, afterColon_column]
  cases c.isBare with
  | false => simp [matchesStart_soleName]
  | true =>
    -- No colon stands between the parenthesis and the end, so that what is read begins with it.
    have hfree : ':' ∉ '(' :: f := by
      have hblank : ':' ∉ f := fun hmem => absurd (hf _ hmem) (by decide)
      simp [hblank]
    have hparen : '(' ∈ afterColon (u' ++ '(' :: f) ++ c.last.chars := by
      rw [afterColon_eq, Plan.rtakeWhile_append _ hfree]
      simp
    rw [if_pos rfl, List.filter_singleton,
      matchesStart_soleName_eq_false hparen (by decide) (by decide)]
    rfl

/-- **What is read of a fragment with a column.** -/
theorem columnsIn_column (hf : Front opened f) (hb : Back closed b) (before : Blanks)
    (c : ColumnText) (after : Blanks) :
    columnsIn (f ++ (before.chars ++ (c.chars ++ after.chars) ++ b)) =
      (c.shown opened closed).map Word.chars := by
  cases hb with
  | @closed u t hu ht =>
    -- The fragment ends in a parenthesis, whatever the column is.
    have hcomma : ',' ∉ (f ++ (before.chars ++ (c.chars ++ after.chars)) ++ u) ++ ')' :: t := by
      simp [hf.comma_not_mem, hu, comma_not_mem_of_blank ht, c.comma_not_mem, comma_not_mem_blanks]
    have hnone := columnsIn_eq_nil hcomma (by decide) (by decide) (by decide) ht
    simpa [ColumnText.shown] using hnone
  | plain ht =>
    have hafter : ∀ x ∈ after.chars ++ b, isBlank x = true :=
      List.forall_mem_append.mpr ⟨after.blank, ht⟩
    cases hf with
    | plain hf =>
      have hbefore : ∀ x ∈ f ++ before.chars, isBlank x = true :=
        List.forall_mem_append.mpr ⟨hf, before.blank⟩
      have hread := columnsIn_alone c hbefore hafter
      simpa [ColumnText.shown] using hread
    | @opened u t hu ht =>
      have hbefore : ∀ x ∈ t ++ before.chars, isBlank x = true :=
        List.forall_mem_append.mpr ⟨ht, before.blank⟩
      have hread := columnsIn_opened c hu hbefore hafter
      cases hbare : c.isBare <;> simpa [ColumnText.shown, hbare] using hread

/-- A fragment without a column is not read. -/
theorem columnsIn_nothing (hf : Front opened f) (hb : Back closed b) : columnsIn (f ++ b) = [] := by
  have hcomma : ',' ∉ f ++ b := by simp [hf.comma_not_mem, hb.comma_not_mem]
  cases hb with
  | @closed u t hu ht =>
    rw [← List.append_assoc] at hcomma ⊢
    exact columnsIn_eq_nil hcomma (by decide) (by decide) (by decide) ht
  | plain ht =>
    cases hf with
    | @opened u t' hu ht' =>
      rw [List.append_assoc, List.cons_append] at hcomma ⊢
      exact columnsIn_eq_nil hcomma (by decide) (by decide) (by decide)
        (List.forall_mem_append.mpr ⟨ht', ht⟩)
    | plain hf =>
      have hstrip : strip (f ++ b) = [] := by
        have hstart : stripStart (f ++ b) = [] :=
          List.dropWhile_eq_nil_iff.mpr (List.forall_mem_append.mpr ⟨hf, ht⟩)
        rw [strip, hstart]
        rfl
      rw [columnsIn_of_not_mem hcomma, hstrip]
      decide

end Around

/-! ## Selections in parentheses -/

theorem Selection.items_eq_nil {s : Selection} (h : s.isNil = true) : s = nil := by
  cases s with
  | nil => rfl
  | column => cases h
  | embed => cases h

/-- The first item of a selection and those behind it. -/
theorem columnsIn_items (f item b : List Char) (rest : Selection) :
    columnsIn (f ++ ([','].intercalate (item :: rest.items) ++ b)) =
      if rest.isNil then columnsIn (f ++ (item ++ b))
      else columnsIn (f ++ item) ++ columnsIn (rest.chars ++ b) := by
  cases hnil : rest.isNil with
  | true =>
    rw [Selection.items_eq_nil hnil]
    simp [Selection.items, List.intercalate]
  | false =>
    obtain ⟨next, items, hitems⟩ : ∃ next items, rest.items = next :: items := by
      cases rest with
      | nil => cases hnil
      | column => exact ⟨_, _, rfl⟩
      | embed => exact ⟨_, _, rfl⟩
    rw [if_neg Bool.false_ne_true, ← columnsIn_append, Selection.chars, hitems,
      List.intercalate_cons_cons]
    simp

/-- **What is read in the parentheses of a relation**: the induction is on the tree, and what stands
around a selection in its first and its last fragment is carried along. -/
theorem columnsIn_chars (s : Selection) {opened closed : Bool} {f b : List Char}
    (hf : Front opened f) (hb : Back closed b) :
    columnsIn (f ++ (s.chars ++ b)) = (s.shown opened closed).map Word.chars := by
  have hnone : Front false [] := .plain (List.forall_mem_nil _)
  have hend : Back false [] := .plain (List.forall_mem_nil _)
  induction s generalizing opened closed f b with
  | nil => exact columnsIn_nothing hf hb
  | column before c after rest ih =>
    rw [Selection.chars, Selection.items, columnsIn_items, Selection.shown, List.map_append]
    cases hnil : rest.isNil with
    | true =>
      rw [if_pos rfl, columnsIn_column hf hb, Bool.and_true, Selection.items_eq_nil hnil,
        Selection.shown, List.map_nil, List.append_nil]
    | false =>
      have hitem := columnsIn_column hf hend before c after
      have hrest := ih hnone hb
      rw [List.append_nil] at hitem
      rw [if_neg Bool.false_ne_true, hitem, Bool.and_false]
      exact congrArg _ hrest
  | embed before r columns after rest ihc ih =>
    rw [Selection.chars, Selection.items, columnsIn_items, Selection.shown, List.map_append]
    -- The columns of the relation stand between its parentheses.
    have hcolumns : ∀ {closed b}, Back closed b →
        columnsIn (f ++ (before.chars ++ (r.around ([','].intercalate columns.items) ++
          after.chars) ++ b)) = (columns.shown true true).map Word.chars := by
      intro closed b hb
      rw [← ihc (hf.relation before r) (hb.relation after)]
      refine congrArg columnsIn ?_
      simp [RelationText.around, Selection.chars]
    cases hnil : rest.isNil with
    | true =>
      rw [if_pos rfl, hcolumns hb, Selection.items_eq_nil hnil, Selection.shown, List.map_nil,
        List.append_nil]
    | false =>
      have hitem := hcolumns hend
      have hrest := ih hnone hb
      rw [List.append_nil] at hitem
      rw [if_neg Bool.false_ne_true, hitem]
      exact congrArg _ hrest

/-- **What is read of a selection.** -/
theorem selectMentions_eq (s : Selection) (table : String) :
    selectMentions s.chars table = s.mentions table := by
  rw [selectMentions_chars]
  induction s with
  | nil => rfl
  | column before c after rest ih =>
    rw [Selection.items, List.flatMap_cons, c.strip_blank before.blank after.blank,
      partMentions_column, ih, Selection.mentions]
  | embed before r columns after rest _ ih =>
    have hcolumns : columnsIn columns.chars = (columns.shown false false).map Word.chars := by
      have hread := columnsIn_chars columns (.plain (List.forall_mem_nil _))
        (.plain (List.forall_mem_nil _))
      rwa [List.nil_append, List.append_nil] at hread
    rw [Selection.items, List.flatMap_cons, strip_around, partMentions_around, ih,
      Selection.mentions]
    change (if columns.chars ≠ [] ∧ '\n' ∉ columns.chars then _ :: (columnsIn columns.chars).map _
      else []) ++ _ = _
    rw [hcolumns, List.map_map]
    rfl

/-! ## Attribution -/

section Attribution

variable {s : Selection} {w : Word} {table owner n : String}

/-- What is read in parentheses is a column of the relation, or it strays. -/
theorem mem_pairs_or_strays (h : w ∈ s.shown false false) :
    (owner, w.string) ∈ s.pairs owner ∨ w ∈ s.strays := by
  induction s with
  | nil => cases h
  | column before c after rest ih =>
    rcases List.mem_append.mp h with h | h
    · obtain rfl : w = c.last := by simpa [ColumnText.shown] using h
      cases hcast : c.cast with
      | none => exact Or.inl (by simp [Selection.pairs, ColumnText.last, hcast])
      | some t => exact Or.inr (by simp [Selection.strays, ColumnText.last, hcast])
    · exact (ih h).imp (List.mem_cons_of_mem _) fun h => List.mem_append_right _ h
  | embed before r columns after rest _ ih =>
    rcases List.mem_append.mp h with h | h
    · -- Whatever is read further inside strays.
      exact Or.inr (List.mem_append_left _ h)
    · exact (ih h).imp (List.mem_append_right _) fun h => List.mem_append_right _ h

/-- What strays is read. -/
theorem mem_shown_of_mem_strays (h : w ∈ s.strays) : w ∈ s.shown false false := by
  induction s with
  | nil => cases h
  | column before c after rest ih =>
    rcases List.mem_append.mp h with h | h
    · have hcast : c.cast = some w := by simpa using h
      exact List.mem_append_left _ (by simp [ColumnText.shown, ColumnText.last, hcast])
    · exact List.mem_append_right _ (ih h)
  | embed before r columns after rest _ ih =>
    rcases List.mem_append.mp h with h | h
    · exact List.mem_append_left _ h
    · exact List.mem_append_right _ (ih h)

/-- **A name that is read** is a column of the relation to which it is attributed, or it strays. -/
theorem owner_of_mem_mentions {m : Mention} (hm : m ∈ s.mentions table) (hn : m.name = some n) :
    ∃ owner, m.owner = some owner ∧ ((owner, n) ∈ s.pairs table ∨ (owner, n) ∈ s.leaks) := by
  induction s with
  | nil => cases hm
  | column before c after rest ih =>
    rcases List.mem_append.mp hm with hm | hm
    · split at hm
      · obtain rfl := List.mem_singleton.mp hm
        obtain rfl : c.name.string = n := Option.some.inj hn
        exact ⟨table, rfl, Or.inl List.mem_cons_self⟩
      · cases hm
    · obtain ⟨owner, howner, hpair⟩ := ih hm
      exact ⟨owner, howner, hpair.imp_left (List.mem_cons_of_mem _)⟩
  | embed before r columns after rest _ ih =>
    rcases List.mem_append.mp hm with hm | hm
    · split at hm
      · rename_i hread
        rcases List.mem_cons.mp hm with rfl | hm
        · cases hn
        · obtain ⟨w, hw, rfl⟩ := List.mem_map.mp hm
          obtain rfl : w.string = n := Option.some.inj hn
          refine ⟨r.name.string, rfl, (mem_pairs_or_strays hw).imp (List.mem_append_left _) ?_⟩
          intro hstray
          refine List.mem_append_left _ ?_
          rw [if_pos hread]
          exact List.mem_map_of_mem hstray
      · cases hm
    · obtain ⟨owner, howner, hpair⟩ := ih hm
      exact ⟨owner, howner, hpair.imp (List.mem_append_right _) (List.mem_append_right _)⟩

/-- **What strays is mentioned.** -/
theorem exists_mention_of_mem_leaks (table : String) (h : (owner, n) ∈ s.leaks) :
    ∃ m ∈ s.mentions table, m.owner = some owner ∧ m.name = some n := by
  induction s with
  | nil => cases h
  | column before c after rest ih =>
    obtain ⟨m, hm, howner⟩ := ih h
    exact ⟨m, List.mem_append_right _ hm, howner⟩
  | embed before r columns after rest _ ih =>
    rcases List.mem_append.mp h with h | h
    · split at h
      · rename_i hread
        obtain ⟨w, hw, heq⟩ := List.mem_map.mp h
        obtain ⟨rfl, rfl⟩ := Prod.mk.inj heq
        refine ⟨embedMention r.name.string (some w.string), List.mem_append_left _ ?_, rfl, rfl⟩
        rw [if_pos hread]
        exact List.mem_cons_of_mem _ (List.mem_map_of_mem (mem_shown_of_mem_strays hw))
      · cases h
    · obtain ⟨m, hm, howner⟩ := ih h
      exact ⟨m, List.mem_append_right _ hm, howner⟩

/-- **Names are attributed well** exactly if what strays happens to be a column of the relation to
which it is attributed. -/
theorem attributed_iff (table : String) (s : Selection) :
    Attributed table s ↔ ∀ p ∈ s.leaks, p ∈ s.pairs table := by
  rw [Attributed, selectMentions_eq]
  constructor
  · rintro h ⟨owner, n⟩ hp
    obtain ⟨m, hm, howner, hn⟩ := exists_mention_of_mem_leaks table hp
    obtain ⟨owner', howner', hpair⟩ := h m hm n hn
    obtain rfl := Option.some.inj (howner.symm.trans howner')
    exact hpair
  · intro h m hm n hn
    obtain ⟨owner, howner, hpair⟩ := owner_of_mem_mentions hm hn
    exact ⟨owner, howner, hpair.elim id (h _)⟩

end Attribution

/-! ### A relation inside a relation -/

/-- A column without an alias and without a cast in front of the rest of a selection. -/
def bareColumn (name : Word) (rest : Selection) : Selection :=
  .column .none ⟨none, name, none⟩ .none rest

/-- Posts with a column that is cast and with their author, of whom three columns are selected. -/
def postsWithAuthor : Selection :=
  .embed .none ⟨none, .ofString "posts" (by decide), none⟩
    (.column .none ⟨none, .ofString "id" (by decide),
        some (.ofString "text" (by decide))⟩ .none
      (.embed .none ⟨none, .ofString "author" (by decide), none⟩
        (bareColumn (.ofString "name" (by decide))
          (bareColumn (.ofString "email" (by decide))
            (bareColumn (.ofString "age" (by decide)) .nil)))
        .none .nil))
    .none .nil

example : String.ofList postsWithAuthor.chars = "posts(id::text,author(name,email,age))" := by
  decide

/-- **The type of the cast and a column of the author** are attributed to the posts. -/
theorem strays_attributed : postsWithAuthor.leaks = [("posts", "text"), ("posts", "email")] ∧
    ¬ Attributed "t" postsWithAuthor := by
  have hleaks : postsWithAuthor.leaks = [("posts", "text"), ("posts", "email")] := by decide
  refine ⟨hleaks, fun h => ?_⟩
  have hemail : ("posts", "email") ∈ postsWithAuthor.leaks := by simp [hleaks]
  obtain ⟨m, hm, howner, hname⟩ := exists_mention_of_mem_leaks "t" hemail
  rw [Attributed, selectMentions_eq] at h
  obtain ⟨owner, howner', hpair⟩ := h m hm "email" hname
  obtain rfl : "posts" = owner := Option.some.inj (howner.symm.trans howner')
  exact absurd hpair (by decide)

end PlanAudit.Supabase
