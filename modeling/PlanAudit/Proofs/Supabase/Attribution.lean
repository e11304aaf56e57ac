import PlanAudit.Proofs.Pattern.Leftmost
import PlanAudit.Proofs.Pattern.Positions
import PlanAudit.Proofs.Pattern.Running
import PlanAudit.Proofs.Plan.Lines
import PlanAudit.Proofs.Supabase.Selections
import PlanAudit.Proofs.Text.FirstPerKey

/-!
# The table of a column

A column belongs to the table that is named last before it in the same piece of text: in the last
characters, and behind the last blank line.  The text in which the table is looked for may start
anywhere, in the middle of a call as well as in that of a run of line feeds.  It is exact all the
same: calls do not reach into each other, so that each of them is found, and none of them starts
inside of a blank line.

## Main definitions

* `TableCall`: a call that names a table
* `InPiece`: a call stands in the piece of text that ends at a position
* `NamedLast`: the last of these calls names a table

## Main results

* `TableCall.exists_matchHere`, `exists_call_of_mem_outcomes`: calls are what is read as a call
* `getLast?_findAll_eq_some_iff`: the last match of a search is the last call of a text
* `exists_base`: the text in which the table is looked for has exactly the calls of the piece
* `column_attribution`: every column has the table that is named last before it
-/

namespace PlanAudit.Supabase

open Text Pattern

/-! ## Calls that name a table -/

/-- A call that names a table: its name between quotation marks, which need not be the same. -/
structure TableCall where
  /-- The white space in front of the first mark. -/
  before : Blanks
  opening : Char
  table : Word
  closing : Char
  /-- The white space behind the last mark. -/
  after : Blanks
  isMark_opening : opening ∈ ['\'', '"']
  isMark_closing : closing ∈ ['\'', '"']

namespace TableCall

def chars (k : TableCall) : List Char :=
  ".from(".toList ++ (k.before.chars ++ ([k.opening] ++ (k.table.chars ++ ([k.closing] ++
    (k.after.chars ++ [')'])))))

variable (k : TableCall)

/-- The pieces of a call in front of a text. -/
theorem chars_append (t : List Char) :
    k.chars ++ t = ".from(".toList ++ (k.before.chars ++ ([k.opening] ++ (k.table.chars ++
      ([k.closing] ++ (k.after.chars ++ ([')'] ++ t)))))) := by
  show (".from(".toList ++ _) ++ t = _
  simp only [List.append_assoc]

/-- A call has a dot in front, and no other. -/
theorem exists_chars_eq : ∃ rest, k.chars = '.' :: rest ∧ '.' ∉ rest := by
  have hfirst : ".from(".toList = '.' :: "from(".toList := by decide
  have hopening : '.' ≠ k.opening := fun h => absurd (h ▸ k.isMark_opening) (by decide)
  have hclosing : '.' ≠ k.closing := fun h => absurd (h ▸ k.isMark_closing) (by decide)
  have hbefore : '.' ∉ k.before.chars := fun h => absurd (k.before.blank _ h) (by decide)
  have hafter : '.' ∉ k.after.chars := fun h => absurd (k.after.blank _ h) (by decide)
  have htable : '.' ∉ k.table.chars := fun h => absurd (k.table.word _ h) (by decide)
  -- No piece behind the first dot holds another one.
  rw [← List.append_nil k.chars, k.chars_append, hfirst]
  refine ⟨_, List.cons_append, ?_⟩
  simp only [List.mem_append, List.mem_singleton]
  simp [hopening, hclosing, hbefore, hafter, htable]

theorem chars_ne_nil : k.chars ≠ [] := by
  obtain ⟨rest, hchars, -⟩ := k.exists_chars_eq
  exact hchars ▸ List.cons_ne_nil '.' rest

/-- **A call is read where it stands**, with the name of its table. -/
theorem exists_matchHere (before : Option Char) (offset : Nat) (t : List Char) :
    ∃ m, fromCall.matchHere before offset (k.chars ++ t) = some m ∧
      m.stop = offset + k.chars.length ∧ m.name 1 = k.table.string := by
  have hlength := congrArg List.length (k.chars_append [])
  rw [k.chars_append]
  let start : Cursor := ⟨before, offset, ".from(".toList ++ (k.before.chars ++ ([k.opening] ++
    (k.table.chars ++ ([k.closing] ++ (k.after.chars ++ ([')'] ++ t)))))), []⟩
  have hrun : fromCall.matchHere before offset start.rest =
      (lit ".from(").run start fun a => blanks.run a fun b => quote.run b fun e =>
        name.run e fun f => quote.run (f.record 1 e) fun g => blanks.run g fun h =>
          (char ')').run h fun c => some ⟨offset, c.offset, start.rest, c.captures⟩ := rfl
  have hmark : ∀ {x : Char}, x ∈ ['\'', '"'] → isBlank x = false ∧ isWord x = false := by
    decide
  have hquote : ∀ {x : Char}, x ∈ ['\'', '"'] → ∀ t, quote.Takes [x] t := fun hx t =>
    takes_one (List.contains_iff_mem.mpr hx)
  have hbefore := takes_blanks (t := [k.opening] ++ (k.table.chars ++ ([k.closing] ++
    (k.after.chars ++ ([')'] ++ t))))) k.before.blank
    (forall_head?_cons (hmark k.isMark_opening).1)
  have htable := takes_name (t := [k.closing] ++ (k.after.chars ++ ([')'] ++ t))) k.table.ne_nil
    k.table.word (forall_head?_cons (hmark k.isMark_closing).2)
  have hafter := takes_blanks (t := [')'] ++ t) k.after.blank (forall_head?_cons (by decide))
  -- The pieces one after the other, each in front of the next one.
  refine ⟨_, hrun.trans (takes_lit ".from(" _ start _ _ rfl (hbefore _ _ _ _ rfl
    (hquote k.isMark_opening _ _ _ _ _ rfl (htable _ _ _ _ rfl
      (hquote k.isMark_closing _ _ _ _ _ rfl (hafter _ _ _ _ rfl
        (takes_char ')' _ _ _ _ rfl rfl))))))), ?_, ?_⟩
  · simp [Cursor.record, start] at hlength ⊢
    omega
  · exact congrArg String.ofList Capture.text_eq

end TableCall

theorem exists_reads_of_mem_quote {c d : Cursor} (h : d ∈ quote.outcomes c) :
    ∃ x ∈ ['\'', '"'], c.Reads [x] d := by
  obtain ⟨x, xs, hrest, hx, rfl⟩ := mem_outcomes_one.mp h
  exact ⟨x, List.contains_iff_mem.mp hx, Cursor.Reads.advance hrest⟩

/-- What is read as a call is one. -/
theorem exists_call_of_mem_outcomes {c d : Cursor} (h : d ∈ fromCall.outcomes c) :
    ∃ k : TableCall, k.chars <+: c.rest := by
  obtain ⟨c₅, h, hclose⟩ := mem_outcomes_append.mp h
  obtain ⟨c₄, h, hafter⟩ := mem_outcomes_append.mp h
  obtain ⟨c₂, h, hname⟩ := mem_outcomes_append.mp h
  obtain ⟨c₁, hopen, hbefore⟩ := mem_outcomes_append.mp h
  obtain ⟨c₃, hname, hclosing⟩ := mem_outcomes_append.mp hname
  obtain ⟨b, hopening, hname⟩ := mem_outcomes_append.mp hname
  obtain ⟨e, htable, rfl⟩ := mem_outcomes_capture.mp hname
  -- What each piece has read makes up the call.
  obtain ⟨v, hv, hvblank⟩ := exists_reads_of_mem_blanks hbefore
  obtain ⟨x, hx, hopening⟩ := exists_reads_of_mem_quote hopening
  obtain ⟨w, hw, hne, hword⟩ := exists_reads_of_mem_plus htable
  obtain ⟨y, hy, hclosing⟩ := exists_reads_of_mem_quote hclosing
  obtain ⟨z, hz, hzblank⟩ := exists_reads_of_mem_blanks hafter
  have hread := (((((reads_of_mem_lit hopen).trans hv).trans hopening).trans hw.record).trans
    hclosing).trans (hz.trans (reads_of_mem_char hclose))
  refine ⟨⟨⟨v, hvblank⟩, x, ⟨w, hne, hword⟩, y, ⟨z, hzblank⟩, hx, hy⟩, d.rest, ?_⟩
  rw [hread.rest_eq, TableCall.chars_append]
  simp only [List.append_assoc]

/-! ## The last call of a text -/

section LastOf

variable {text : List Char} {k : TableCall} {i : Nat}

/-- **A call that stands in a text is found**, since calls do not reach into each other. -/
theorem exists_mem_findAll (h : k.chars <+: text.drop i) :
    ∃ m ∈ fromCall.findAll text, m.start = i ∧ m.name 1 = k.table.string := by
  obtain ⟨t, ht⟩ := h
  obtain ⟨rest, hchars, -⟩ := k.exists_chars_eq
  have hi : i ≤ text.length := by
    by_contra hlt
    rw [List.drop_eq_nil_of_le (Nat.le_of_not_le hlt), hchars] at ht
    cases ht
  obtain ⟨m, hm, -, hname⟩ := k.exists_matchHere (text.take i).getLast? (text.take i).length t
  have hfound : m ∈ fromCall.findAll (text.take i ++ (k.chars ++ t)) := by
    refine mem_findAll_of_matchHere hm fun v w hsplit hw first hfirst => ?_
    obtain ⟨d, hd, -⟩ := exists_outcome_of_matchHere hfirst
    obtain ⟨k', s, hs⟩ := exists_call_of_mem_outcomes hd
    have hs : k'.chars ++ s = w ++ (k.chars ++ t) := hs
    -- An earlier call ends in front of the dot of this one, since it has no dot behind its own.
    have hlength : k'.chars.length ≤ w.length := by
      obtain ⟨x, w, rfl⟩ := List.exists_cons_of_ne_nil hw
      obtain ⟨rest', hchars', hdot⟩ := k'.exists_chars_eq
      rw [hchars'] at hs ⊢
      rw [hchars] at hs
      obtain ⟨z, rfl⟩ := exists_eq_append_of_not_mem hdot (List.cons.inj hs).2
      simp
    rw [← hs] at hfirst
    obtain ⟨m', hm', hstop, -⟩ := k'.exists_matchHere v.getLast? v.length s
    obtain rfl := Option.some.inj (hfirst.symm.trans hm')
    rw [hsplit, List.length_append, hstop]
    exact Nat.add_le_add_left hlength _
  rw [ht, List.take_append_drop] at hfound
  refine ⟨m, hfound, ?_, hname⟩
  rw [start_of_matchHere hm, List.length_take, Nat.min_eq_left hi]

/-- What is found is a call that stands in the text. -/
theorem exists_call_of_mem_findAll {m : Match} (h : m ∈ fromCall.findAll text) :
    ∃ k : TableCall, k.chars <+: text.drop m.start ∧ m.name 1 = k.table.string := by
  obtain ⟨u, t, rfl, hm⟩ := exists_position_of_mem_findAll h
  obtain ⟨d, hd, -⟩ := exists_outcome_of_matchHere hm
  obtain ⟨k, s, rfl⟩ := exists_call_of_mem_outcomes hd
  obtain ⟨m', hm', -, hname⟩ := k.exists_matchHere u.getLast? u.length s
  obtain rfl := Option.some.inj (hm.symm.trans hm')
  refine ⟨k, ?_, hname⟩
  rw [start_of_matchHere hm, List.drop_left]
  exact List.prefix_append _ _

/-- The call is the last that stands in the text. -/
def IsLastCall (text : List Char) (k : TableCall) (i : Nat) : Prop :=
  k.chars <+: text.drop i ∧ ∀ (k' : TableCall) (j : Nat), k'.chars <+: text.drop j → j ≤ i

/-- **The last match of a search is the last call of the text.** -/
theorem getLast?_findAll_eq_some_iff {table : String} :
    (fromCall.findAll text).getLast?.map (Match.name · 1) = some table ↔
      ∃ k i, IsLastCall text k i ∧ k.table.string = table := by
  constructor
  · intro h
    obtain ⟨m, hlast, rfl⟩ := Option.map_eq_some_iff.mp h
    obtain ⟨k, hk, hname⟩ := exists_call_of_mem_findAll (List.mem_of_getLast? hlast)
    refine ⟨k, m.start, ⟨hk, fun k' j hk' => ?_⟩, hname.symm⟩
    obtain ⟨m', hm', rfl, -⟩ := exists_mem_findAll hk'
    exact start_le_of_getLast?_findAll hlast hm'
  · rintro ⟨k, i, ⟨hk, hlast⟩, rfl⟩
    obtain ⟨m, hm, rfl, hname⟩ := exists_mem_findAll hk
    obtain ⟨m', hm'⟩ := Option.ne_none_iff_exists'.mp
      (mt List.getLast?_eq_none_iff.mp (List.ne_nil_of_mem hm))
    -- The last match is a call as well, so that it starts where this one does.
    have hmem := List.mem_of_getLast? hm'
    obtain ⟨k', hk', -⟩ := exists_call_of_mem_findAll hmem
    have hstart : m.start = m'.start :=
      Nat.le_antisymm (start_le_of_getLast?_findAll hm' hm) (hlast k' m'.start hk')
    have hstands : ∀ {m}, m ∈ fromCall.findAll text → fromCall.StandsIn text m :=
      exists_position_of_mem_findAll
    obtain rfl := (hstands hm).eq_of_start_eq (hstands hmem) hstart
    rw [hm', Option.map_some, hname]

theorem getLast?_findAll_eq_none_iff :
    (fromCall.findAll text).getLast?.map (Match.name · 1) = none ↔
      ∀ (k : TableCall) (i : Nat), ¬ k.chars <+: text.drop i := by
  rw [Option.map_eq_none_iff, List.getLast?_eq_none_iff, List.eq_nil_iff_forall_not_mem]
  constructor
  · intro h k i hk
    obtain ⟨m, hm, -⟩ := exists_mem_findAll hk
    exact h m hm
  · intro h m hm
    obtain ⟨k, hk, -⟩ := exists_call_of_mem_findAll hm
    exact h k m.start hk

end LastOf

/-! ## The piece of text around a position -/

/-- The call stands in the piece of text that ends at the position: not further back than is looked,
up to the position, and with no blank line from its start on. -/
structure InPiece (plan : List Char) (position : Nat) (k : TableCall) (i : Nat) : Prop where
  stands : k.chars <+: plan.drop i
  start_le : position - lookback ≤ i
  stop_le : i + k.chars.length ≤ position
  unbroken : ¬ ['\n', '\n'] <:+: slice plan i position

/-- The last call in the piece of text that ends at the position names the table. -/
def NamedLast (plan : List Char) (position : Nat) (table : String) : Prop :=
  ∃ k i, InPiece plan position k i ∧ k.table.string = table ∧
    ∀ k' j, InPiece plan position k' j → j ≤ i

section Piece

variable {plan : List Char} {position : Nat} {k : TableCall} {i : Nat}

/-- The text in which the table is looked for: no blank line is in it, and in front of it are only
positions from which one is, or that are inside of one. -/
theorem exists_lookbackWindow_eq (plan : List Char) (position : Nat) :
    ∃ base, position - lookback ≤ base ∧
      Plan.lookbackWindow plan position lookback = slice plan base position ∧
      ¬ ['\n', '\n'] <:+: slice plan base position ∧
      ∀ i, position - lookback ≤ i → i < base →
        ['\n', '\n'] <:+: slice plan i position ∨ ['\n'] <+: slice plan i position := by
  have hne : ['\n', '\n'] ≠ [] := by decide
  rcases Plan.afterLast_cases hne (slice plan (position - lookback) position) with
    ⟨hfree, hafter⟩ | ⟨u, v, htext, hfree, hafter⟩
  · refine ⟨position - lookback, Nat.le_refl _, hafter, hfree, fun i hi hlt => ?_⟩
    exact absurd hlt (Nat.not_lt_of_le hi)
  · have hslice : ∀ n, slice plan (position - lookback + n) position =
        (u ++ (['\n', '\n'] ++ v)).drop n := by
      intro n
      rw [← htext, slice, ← List.drop_drop]
      rfl
    have hv : slice plan (position - lookback + (u.length + 2)) position = v := by
      rw [hslice, List.drop_length_add_append]
      rfl
    refine ⟨_, Nat.le_add_right _ _, hafter.trans hv.symm, by rwa [hv], fun i hi hlt => ?_⟩
    obtain ⟨n, rfl⟩ := Nat.exists_eq_add_of_le hi
    rw [hslice]
    by_cases hn : n ≤ u.length
    · left
      rw [List.drop_append_of_le_length hn]
      exact ⟨u.drop n, v, List.append_assoc _ _ _⟩
    · -- Between the two line feeds.
      obtain rfl : n = u.length + 1 := by omega
      right
      rw [List.drop_length_add_append]
      exact ⟨v, rfl⟩

/-- The calls in the piece of text are those in the text in which the table is looked for. -/
theorem exists_base (plan : List Char) (position : Nat) :
    ∃ base, Plan.lookbackWindow plan position lookback = slice plan base position ∧
      (∀ k i, InPiece plan position k i → base ≤ i) ∧
      ∀ (k : TableCall) (j : Nat), k.chars <+: (slice plan base position).drop j ↔
        InPiece plan position k (base + j) := by
  obtain ⟨base, hle, hwindow, hfree, hfront⟩ := exists_lookbackWindow_eq plan position
  have hdrop : ∀ j, (slice plan base position).drop j = slice plan (base + j) position :=
    fun j => List.drop_drop
  refine ⟨base, hwindow, fun k i h => ?_, fun k j => ?_⟩
  · by_contra hlt
    rcases hfront i h.start_le (Nat.lt_of_not_le hlt) with hbroken | hfeed
    · exact h.unbroken hbroken
    · -- A call starts with a dot, and not inside of a blank line.
      obtain ⟨rest, hchars, -⟩ := k.exists_chars_eq
      obtain ⟨t, ht⟩ := (prefix_slice_iff k.chars_ne_nil).mpr ⟨h.stands, h.stop_le⟩
      rw [← ht, hchars] at hfeed
      exact absurd (List.cons_prefix_cons.mp hfeed).1 (by decide)
  · rw [hdrop, prefix_slice_iff k.chars_ne_nil]
    have hlater : base ≤ base + j := Nat.le_add_right base j
    constructor
    · rintro ⟨hstands, hstop⟩
      exact ⟨hstands, hle.trans hlater, hstop,
        fun h => hfree (h.trans (slice_suffix hlater).isInfix)⟩
    · exact fun h => ⟨h.stands, h.stop_le⟩

theorem nearestFrom_eq_some_iff {table : String} :
    nearestFrom plan position = some table ↔ NamedLast plan position table := by
  obtain ⟨base, hwindow, hbase, hshift⟩ := exists_base plan position
  rw [nearestFrom, hwindow, getLast?_findAll_eq_some_iff]
  constructor
  · rintro ⟨k, j, ⟨hk, hlast⟩, hname⟩
    refine ⟨k, base + j, (hshift k j).mp hk, hname, fun k' i hk' => ?_⟩
    obtain ⟨j', rfl⟩ := Nat.exists_eq_add_of_le (hbase k' i hk')
    exact Nat.add_le_add_left (hlast k' j' ((hshift k' j').mpr hk')) base
  · rintro ⟨k, i, hk, hname, hlast⟩
    obtain ⟨j, rfl⟩ := Nat.exists_eq_add_of_le (hbase k i hk)
    refine ⟨k, j, ⟨(hshift k j).mpr hk, fun k' j' hk' => ?_⟩, hname⟩
    exact Nat.le_of_add_le_add_left (hlast k' _ ((hshift k' j').mp hk'))

theorem nearestFrom_eq_none_iff :
    nearestFrom plan position = none ↔ ∀ k i, ¬ InPiece plan position k i := by
  obtain ⟨base, hwindow, hbase, hshift⟩ := exists_base plan position
  rw [nearestFrom, hwindow, getLast?_findAll_eq_none_iff]
  constructor
  · intro h k i hk
    obtain ⟨j, rfl⟩ := Nat.exists_eq_add_of_le (hbase k i hk)
    exact h k j ((hshift k j).mpr hk)
  · exact fun h k j hk => h k _ ((hshift k j).mp hk)

end Piece

/-! ## Columns -/

theorem owner_of_mem_ite {column : List Char} {table : String} {m : Mention}
    (h : m ∈ if soleName.matchesStart column then [columnMention table (String.ofList column)]
      else []) : m.owner = some table := by
  split at h
  · obtain rfl := List.mem_singleton.mp h
    rfl
  · cases h

/-- A column of a selection belongs to the table of the selection. -/
theorem owner_of_mem_selectMentions {selection : List Char} {table : String} {m : Mention}
    (h : m ∈ selectMentions selection table) (hkind : m.kind = .column) : m.owner = some table := by
  obtain ⟨part, -, hm⟩ := List.mem_flatMap.mp h
  unfold partMentions at hm
  split at hm
  · cases hm
  · split at hm
    · -- What is read of an embedded relation are no columns.
      rcases List.mem_cons.mp hm with rfl | hm
      · cases hkind
      · obtain ⟨c, -, rfl⟩ := List.mem_map.mp hm
        cases hkind
    · exact owner_of_mem_ite hm

theorem exists_nearestFrom_of_mem_mentions {plan : List Char} {m : Mention}
    (h : m ∈ mentions plan) (hkind : m.kind = .column) :
    ∃ offset table, m.offset = some offset ∧ m.owner = some table ∧
      nearestFrom plan offset = some table := by
  have hmem := mem_of_mem_firstPerKey _ h
  simp only [List.mem_append] at hmem
  -- Tables, selections, filters and functions.
  rcases hmem with ((hm | hm) | hm) | hm
  · obtain ⟨found, -, rfl⟩ := List.mem_map.mp hm
    cases hkind
  · obtain ⟨found, -, hm⟩ := List.mem_flatMap.mp hm
    split at hm
    · rename_i table htable
      obtain ⟨selected, hsel, rfl⟩ := List.mem_map.mp hm
      have howner : selected.owner = some table := owner_of_mem_selectMentions hsel hkind
      exact ⟨_, table, rfl, howner, htable⟩
    · cases hm
  · obtain ⟨found, -, hm⟩ := List.mem_filterMap.mp hm
    obtain ⟨table, htable, rfl⟩ := Option.map_eq_some_iff.mp hm
    exact ⟨_, table, rfl, rfl, htable⟩
  · obtain ⟨found, -, rfl⟩ := List.mem_map.mp hm
    cases hkind

/-- **Columns belong to the last table named before them**: at every position the table that is
found is that of the last call in the piece of text that ends there, and none if there is no call;
and each column has the table that is found where it stands. -/
theorem column_attribution (plan : List Char) :
    (∀ position, (∀ table, nearestFrom plan position = some table ↔
        NamedLast plan position table) ∧
      (nearestFrom plan position = none ↔ ∀ k i, ¬ InPiece plan position k i)) ∧
    ∀ m ∈ mentions plan, m.kind = .column → ∃ offset table, m.offset = some offset ∧
      m.owner = some table ∧ NamedLast plan offset table := by
  refine ⟨fun position => ⟨fun _ => nearestFrom_eq_some_iff, nearestFrom_eq_none_iff⟩, ?_⟩
  intro m hm hkind
  obtain ⟨offset, table, hoffset, howner, htable⟩ := exists_nearestFrom_of_mem_mentions hm hkind
  exact ⟨offset, table, hoffset, howner, nearestFrom_eq_some_iff.mp htable⟩

end PlanAudit.Supabase
