import Mathlib.Data.List.TakeWhile
import PlanAudit.Proofs.Pattern.LineSearch
import PlanAudit.Proofs.Sql.Builders
import PlanAudit.Sql.Judgement

/-!
# A column in a plan

A plan that consists of a property of a variable, between grave accents, mentions that property and
nothing else: no call, no keyword and no further property stands in it.  What is read of the
property are the characters up to the first dollar sign, which names in source files may have and
names in plans may not.

## Main definitions

* `propertyPlan`: the plan
* `readPart`: the part of a name up to its first dollar sign
* `Agrees`: the definition of a table and the plan are understood alike

## Main results

* `exists_mentions_propertyPlan`, `mentions_propertyPlan_eq_nil`: what the plan mentions
* `agrees_iff`: when the definition and the plan are understood alike
* `dollar_column_not_recognized`: a column that is not recognized in the plan
-/

namespace PlanAudit.Sql

open Text Pattern

/-- The plan that consists of a property of a variable between grave accents. -/
def propertyPlan (v p : KeyName) : List Char :=
  '\x60' :: (v.chars ++ '.' :: (p.chars ++ ['\x60']))

/-- The part of a name up to its first dollar sign. -/
def readPart (p : KeyName) : List Char := p.chars.takeWhile isWord

/-! ## What the plan holds -/

section Plan

variable (v p : KeyName)

/-- What is read in the plan has no more of a character that names do not hold than stands around
the names. -/
theorem count_le_of_suffix {c : Char} (hc : isKeyChar c = false) {w t u : List Char}
    (h : w ++ (t ++ u) <:+ propertyPlan v p) : t.count c ≤ ['\x60', '.', '\x60'].count c := by
  have hplan : (propertyPlan v p).count c = ['\x60', '.', '\x60'].count c := by
    simp [propertyPlan, List.count_cons, List.count_eq_zero.mpr (v.not_mem hc),
      List.count_eq_zero.mpr (p.not_mem hc), List.count_append]
  have hsub : t.Sublist (propertyPlan v p) :=
    ((List.sublist_append_left t u).trans (List.sublist_append_right w _)).trans h.sublist
  exact hplan ▸ hsub.count_le c

/-- No call of a query builder stands in the plan: it has no parenthesis. -/
theorem findAll_builderCall (names : List String) :
    (builderCall names).findAll (propertyPlan v p) = [] := by
  refine findScan_eq_nil fun c d hd hsuffix => ?_
  obtain ⟨c₁, hd, -⟩ := mem_outcomes_append.mp hd
  obtain ⟨c₂, hd, -⟩ := mem_outcomes_append.mp hd
  obtain ⟨c₃, hd, hparen⟩ := mem_outcomes_append.mp hd
  obtain ⟨w, hw, -⟩ := exists_reads (readsOnly_true _) _ _ hd
  rw [hw.rest_eq, (reads_of_mem_char hparen).rest_eq] at hsuffix
  exact absurd (count_le_of_suffix v p (c := '(') (by decide) hsuffix) (by decide)

/-- No relational query stands in the plan: it has one dot only. -/
theorem findAll_relationalQuery (names : List String) :
    (relationalQuery names).findAll (propertyPlan v p) = [] := by
  refine findScan_eq_nil fun c d hd hsuffix => ?_
  obtain ⟨c₁, hd, -⟩ := mem_outcomes_append.mp hd
  obtain ⟨c₂, hd, -⟩ := mem_outcomes_append.mp hd
  obtain ⟨c₃, hd, -⟩ := mem_outcomes_append.mp hd
  obtain ⟨c₄, hd, hquery⟩ := mem_outcomes_append.mp hd
  obtain ⟨w, hw, -⟩ := exists_reads (readsOnly_true _) _ _ hd
  rw [hw.rest_eq, (reads_of_mem_lit hquery).rest_eq] at hsuffix
  exact absurd (count_le_of_suffix v p (c := '.') (by decide) hsuffix) (by decide)

theorem builderMentions_propertyPlan : builderMentions (propertyPlan v p) = [] := by
  simp [builderMentions, findAll_builderCall, findAll_relationalQuery]

/-! ## The code of the plan -/

/-- No fenced block stands in the plan: it has two grave accents only. -/
theorem findAll_fencedBlock : Plan.fencedBlock.findAll (propertyPlan v p) = [] := by
  refine findScan_eq_nil fun c d hd hsuffix => ?_
  obtain ⟨c₁, hd, -⟩ := mem_outcomes_append.mp hd
  obtain ⟨c₂, hfence, -⟩ := mem_outcomes_append.mp hd
  rw [(reads_of_mem_lit hfence).rest_eq, ← List.nil_append (_ ++ _)] at hsuffix
  exact absurd (count_le_of_suffix v p (c := '\x60') (by decide) hsuffix) (by decide)

/-- The code of the plan stands between the grave accents. -/
theorem codeRegions_propertyPlan :
    Plan.codeRegions (propertyPlan v p) = v.chars ++ '.' :: p.chars := by
  let code := v.chars ++ '.' :: p.chars
  have hplan : propertyPlan v p = ['\x60'] ++ (code ++ (['\x60'] ++ [])) := by
    simp [propertyPlan, code]
  have hcode : (plus (noneOf "\x60")).Takes code (['\x60'] ++ []) := by
    refine takes_loop_one (fun c hc => ?_) (by simp [code]; omega) (forall_head?_cons (by decide))
    have hne : c ≠ '\x60' := by
      rintro rfl
      simp [code, KeyName.not_mem (x := '\x60') _ (by decide)] at hc
    simpa using hne
  have hrun : Plan.inlineCode.matchHere none 0 (propertyPlan v p) =
      (char '\x60').run ⟨none, 0, propertyPlan v p, []⟩ fun e =>
        (plus (noneOf "\x60")).run e fun f => (char '\x60').run (f.record 1 e) fun g =>
          some ⟨0, g.offset, propertyPlan v p, g.captures⟩ := rfl
  obtain ⟨m, hm, hstop, hgroup⟩ : ∃ m,
      Plan.inlineCode.matchHere none 0 (propertyPlan v p ++ []) = some m ∧
        m.stop = 0 + (propertyPlan v p).length ∧ m.group 1 = code := by
    rw [List.append_nil]
    refine ⟨_, hrun.trans (takes_char _ _ _ _ _ hplan (hcode _ _ _ _ rfl
      (takes_char _ _ _ _ _ rfl rfl))), ?_, ?_⟩
    · rw [hplan]
      simp [Cursor.record, Nat.add_assoc]
    · exact Capture.text_eq
  have hfound := findScan_append_of_matchHere (List.cons_ne_nil _ _) hm hstop
  rw [List.append_nil] at hfound
  have hspans : Plan.inlineCode.findAll (propertyPlan v p) = [m] := hfound
  rw [Plan.codeRegions, findAll_fencedBlock, hspans, List.map_nil, List.nil_append, List.map_cons,
    hgroup]
  exact List.append_nil _

/-- No keyword names a table in the plan: nothing in it is white space. -/
theorem keywordMentions_propertyPlan : keywordMentions (propertyPlan v p) = [] := by
  have hfind : tableAfterKeyword.findAll (v.chars ++ '.' :: p.chars) = [] := by
    refine findScan_eq_nil fun c d hd hsuffix => ?_
    obtain ⟨c₁, hd, -⟩ := mem_outcomes_append.mp hd
    obtain ⟨c₂, hd, -⟩ := mem_outcomes_append.mp hd
    obtain ⟨c₃, hd, -⟩ := mem_outcomes_append.mp hd
    obtain ⟨c₄, hd, -⟩ := mem_outcomes_append.mp hd
    obtain ⟨c₅, hd, hblanks⟩ := mem_outcomes_append.mp hd
    obtain ⟨w, hw, -⟩ := exists_reads (readsOnly_true _) _ _ hd
    obtain ⟨gap, hgap, hne, hblank⟩ := exists_reads_of_mem_plus hblanks
    obtain ⟨x, gap, rfl⟩ := List.exists_cons_of_ne_nil hne
    rw [hw.rest_eq, hgap.rest_eq] at hsuffix
    have hx : x ∈ v.chars ++ '.' :: p.chars := hsuffix.subset (by simp)
    have hxblank := hblank x List.mem_cons_self
    have hkey : ∀ n : KeyName, x ∉ n.chars := fun n hn => by
      have hchar := n.isKey x hn
      rw [isKeyChar, isWord_eq_false_of_isBlank hxblank, Bool.false_or, beq_iff_eq] at hchar
      rw [hchar] at hxblank
      exact absurd hxblank (by decide)
    rcases List.mem_append.mp hx with hx | hx
    · exact hkey v hx
    · rcases List.mem_cons.mp hx with rfl | hx
      · exact absurd hxblank (by decide)
      · exact hkey p hx
  rw [keywordMentions, codeRegions_propertyPlan, hfind]
  rfl

/-! ## The property -/

/-- A match of a property access reads a name, a dot and a name. -/
theorem exists_of_mem_propertyAccess {c d : Cursor} (hd : d ∈ propertyAccess.outcomes c) :
    ∃ object property, c.rest = object ++ '.' :: (property ++ d.rest) ∧
      (object ≠ [] ∧ ∀ x ∈ object, isWord x = true) ∧
      (property ≠ [] ∧ ∀ x ∈ property, isWord x = true) := by
  obtain ⟨c₄, hd, hedge⟩ := mem_outcomes_append.mp hd
  obtain ⟨-, rfl⟩ := mem_outcomes_here.mp hedge
  obtain ⟨c₃, hd, hproperty⟩ := mem_outcomes_append.mp hd
  obtain ⟨c₂, hd, hdot⟩ := mem_outcomes_append.mp hd
  obtain ⟨c₁, hedge, hobject⟩ := mem_outcomes_append.mp hd
  obtain ⟨-, rfl⟩ := mem_outcomes_here.mp hedge
  obtain ⟨e, he, rfl⟩ := mem_outcomes_capture.mp hobject
  obtain ⟨f, hf, rfl⟩ := mem_outcomes_capture.mp hproperty
  obtain ⟨object, hobject, hobjectWord⟩ := exists_reads_of_mem_plus he
  obtain ⟨property, hproperty, hpropertyWord⟩ := exists_reads_of_mem_plus hf
  refine ⟨object, property, ?_, hobjectWord, hpropertyWord⟩
  have hdot : e.rest = '.' :: c₃.rest := (reads_of_mem_char hdot).rest_eq
  rw [hobject.rest_eq, hdot, hproperty.rest_eq]
  rfl

/-- What is not read of the property, up to the end of the plan. -/
def unread (p : KeyName) : List Char := p.chars.dropWhile isWord ++ ['\x60']

theorem head_unread : ∀ c ∈ (unread p).head?, isWord c = false := by
  unfold unread
  cases hrest : p.chars.dropWhile isWord with
  | nil => exact forall_head?_cons (by decide)
  | cons x rest =>
    refine forall_head?_cons ?_
    have := List.head_dropWhile_not isWord (l := p.chars) (by simp [hrest])
    simpa [hrest] using this

theorem dot_not_mem_unread : '.' ∉ unread p := by
  have hp : '.' ∉ p.chars.dropWhile isWord := fun h =>
    p.not_mem (by decide) ((List.dropWhile_sublist _).subset h)
  simp [unread, hp]

theorem propertyPlan_eq : propertyPlan v p =
    ['\x60'] ++ ((v.chars ++ '.' :: readPart p) ++ unread p) := by
  simp [propertyPlan, readPart, unread, ← List.append_assoc (p.chars.takeWhile isWord)]

/-- Where nothing of the property is read, no property is found. -/
theorem findAll_propertyAccess_of_nil (hread : readPart p = []) :
    propertyAccess.findAll (propertyPlan v p) = [] := by
  refine findScan_eq_nil fun c d hd hsuffix => ?_
  obtain ⟨object, property, hrest, ⟨-, hobject⟩, hne, hproperty⟩ := exists_of_mem_propertyAccess hd
  obtain ⟨u, hu⟩ := hsuffix
  have hdot : '.' ∉ '\x60' :: v.chars := by
    simp [KeyName.not_mem (x := '.') _ (by decide)]
  have hsplit : ('\x60' :: v.chars) ++ '.' :: unread p =
      (u ++ object) ++ '.' :: (property ++ d.rest) := by
    rw [List.append_assoc, ← hrest, hu, propertyPlan_eq, hread]
    simp
  obtain ⟨-, -, hunread⟩ :=
    (List.append_cons_inj_of_notMem hdot (dot_not_mem_unread p)).mp hsplit
  obtain ⟨x, rest, rfl⟩ := List.exists_cons_of_ne_nil hne
  have hhead := head_unread p
  rw [hunread] at hhead
  have := hhead x rfl
  rw [hproperty x List.mem_cons_self] at this
  cases this

/-- What is read of the property is found behind the variable. -/
theorem exists_matchHere_propertyAccess (hv : ∀ c ∈ v.chars, isWord c = true)
    (hread : readPart p ≠ []) :
    ∃ m, propertyAccess.matchHere (some '\x60') 1 (v.chars ++ '.' :: readPart p ++ unread p) =
        some m ∧ m.stop = 1 + (v.chars ++ '.' :: readPart p).length ∧
      m.name 1 = v.string ∧ m.name 2 = String.ofList (readPart p) := by
  have hreadWord : ∀ c ∈ readPart p, isWord c = true := fun c hc => List.mem_takeWhile_imp hc
  have htext : v.chars ++ '.' :: readPart p ++ unread p =
      v.chars ++ (['.'] ++ (readPart p ++ unread p)) := by simp
  rw [htext]
  let start : Cursor := ⟨some '\x60', 1, v.chars ++ (['.'] ++ (readPart p ++ unread p)), []⟩
  have hrun : propertyAccess.matchHere (some '\x60') 1 start.rest =
      if start.before.any isWord != start.rest.head?.any isWord then
        Pattern.name.run start fun e => (char '.').run (e.record 1 start) fun f =>
          Pattern.name.run f fun g =>
            if (g.record 2 f).before.any isWord != g.rest.head?.any isWord then
              some ⟨1, g.offset, start.rest, (g.record 2 f).captures⟩
            else none
      else none := rfl
  have hobject : Pattern.name.Takes v.chars (['.'] ++ (readPart p ++ unread p)) :=
    takes_name v.ne_nil hv (forall_head?_cons (by decide))
  have hproperty : Pattern.name.Takes (readPart p) (unread p) :=
    takes_name hread hreadWord (head_unread p)
  have hstart : (start.before.any isWord != start.rest.head?.any isWord) = true := by
    obtain ⟨x, rest, hx⟩ := List.exists_cons_of_ne_nil v.ne_nil
    have hword : isWord x = true := hv x (by rw [hx]; exact List.mem_cons_self)
    have hgrave : isWord '\x60' = false := by decide
    simp [start, hx, hword, hgrave]
  -- The last character that is read is part of a name, and the one behind it is not.
  obtain ⟨x, hx⟩ : ∃ x, (readPart p).getLast? = some x := ⟨_, List.getLast?_eq_some_getLast hread⟩
  have hlast : isWord x = true := hreadWord x (List.mem_of_getLast? hx)
  have hbehind : (unread p).head?.any isWord = false := by
    have hhead := head_unread p
    cases hunread : (unread p).head? with
    | none => rfl
    | some y => exact hhead y hunread
  refine ⟨_, hrun.trans ((if_pos hstart).trans (hobject _ _ _ _ rfl (takes_char _ _ _ _ _ rfl
    (hproperty _ _ _ _ rfl (if_pos ?_))))), ?_, ?_, ?_⟩
  · simp [Cursor.record, hbehind, List.getLast?_cons, hx, hlast]
  · simp [Cursor.record, start, Nat.add_assoc]
  · exact congrArg String.ofList Capture.text_eq
  · exact congrArg String.ofList Capture.text_eq

/-- **The property is the only thing that is found**, if something of it is read. -/
theorem exists_findAll_propertyAccess (hv : ∀ c ∈ v.chars, isWord c = true)
    (hread : readPart p ≠ []) :
    ∃ m, propertyAccess.findAll (propertyPlan v p) = [m] ∧ m.name 1 = v.string ∧
      m.name 2 = String.ofList (readPart p) := by
  obtain ⟨m, hm, hstop, hobject, hproperty⟩ := exists_matchHere_propertyAccess v p hv hread
  refine ⟨m, ?_, hobject, hproperty⟩
  have hnone : propertyAccess.matchHere none 0 (propertyPlan v p) = none := by
    by_contra h
    obtain ⟨m, hm⟩ := Option.ne_none_iff_exists'.mp h
    obtain ⟨d, hd, -⟩ := exists_outcome_of_matchHere hm
    obtain ⟨object, property, hrest, ⟨hne, hword⟩, -⟩ := exists_of_mem_propertyAccess hd
    obtain ⟨x, object, rfl⟩ := List.exists_cons_of_ne_nil hne
    obtain ⟨hx, -⟩ := List.cons.inj hrest
    exact absurd (hword x List.mem_cons_self) (hx ▸ by decide)
  have hafter : ∀ before offset, propertyAccess.findScan 0 before offset (unread p) = [] := by
    intro before offset
    refine findScan_eq_nil fun c d hd hsuffix => ?_
    obtain ⟨object, property, hrest, -, -⟩ := exists_of_mem_propertyAccess hd
    refine dot_not_mem_unread p (hsuffix.subset ?_)
    simp [hrest]
  rw [findAll, propertyPlan_eq] at *
  rw [List.singleton_append] at *
  rw [findScan, hnone]
  dsimp only
  rw [findScan_append_of_matchHere (by simp) hm hstop, hafter]

/-- What is read of the property may be a column. -/
def MayBeRead : Prop :=
  readPart p ≠ [] ∧ mayBeColumn v.string (String.ofList (readPart p)) = true

theorem mentions_eq_columnMentions :
    mentions (propertyPlan v p) =
      Text.firstPerKey (fun m => (m.ownerName, m.name)) (columnMentions (propertyPlan v p)) := by
  rw [mentions, builderMentions_propertyPlan, keywordMentions_propertyPlan, List.nil_append,
    List.append_nil]

/-- **The plan mentions the property and nothing else**, if what is read of it may be a column. -/
theorem exists_mentions_propertyPlan (hv : ∀ c ∈ v.chars, isWord c = true)
    (hread : MayBeRead v p) :
    ∃ m, mentions (propertyPlan v p) = [m] ∧ m.ownerName = v.string ∧ m.kind = .column ∧
      m.name = some (String.ofList (readPart p)) := by
  obtain ⟨found, hfind, hobject, hproperty⟩ := exists_findAll_propertyAccess v p hv hread.1
  have hkept : mayBeColumn (found.name 1) (found.name 2) = true := by
    rw [hobject, hproperty]
    exact hread.2
  rw [mentions_eq_columnMentions, columnMentions, hfind, List.filter_cons, if_pos hkept]
  exact ⟨_, rfl, hobject, rfl, congrArg some hproperty⟩

/-- Otherwise it mentions nothing. -/
theorem mentions_propertyPlan_eq_nil (hv : ∀ c ∈ v.chars, isWord c = true)
    (hread : ¬ MayBeRead v p) : mentions (propertyPlan v p) = [] := by
  have hnone : columnMentions (propertyPlan v p) = [] := by
    by_cases hnil : readPart p = []
    · rw [columnMentions, findAll_propertyAccess_of_nil v p hnil]
      rfl
    · obtain ⟨found, hfind, hobject, hproperty⟩ := exists_findAll_propertyAccess v p hv hnil
      have hdropped : ¬ mayBeColumn (found.name 1) (found.name 2) = true := by
        rw [hobject, hproperty]
        exact fun h => hread ⟨hnil, h⟩
      rw [columnMentions, hfind, List.filter_cons, if_neg hdropped]
      rfl
  rw [mentions_eq_columnMentions, hnone]
  rfl

end Plan

/-! ## The table and the plan -/

/-- The table that was added alone is found by its variable. -/
theorem resolve?_addBuilt {t : Table} {name : String} (h : t.variableName = some name) :
    (Schema.empty.addBuilt t).resolve? name = some t := by
  have htables : (Schema.empty.addBuilt t).tables.find? t.name = some t :=
    Catalog.find?_insert_self _ _ _
  have htableOf : (Schema.empty.addBuilt t).tableOf.find? name = some t.name := by
    unfold Schema.addBuilt
    rw [h]
    exact Catalog.find?_insert_self _ _ _
  unfold Schema.resolve?
  split
  · rename_i found hfound
    by_cases hname : name = t.name
    · rw [hname, htables] at hfound
      exact hfound.symm
    · have hother : (Schema.empty.addBuilt t).tables.find? name = none :=
        (Catalog.find?_insert_of_ne _ hname _).trans (Catalog.find?_empty _)
      rw [hother] at hfound
      cases hfound
  · rw [htableOf, Option.bind_some, htables]

/-- **The definition of a table and the plan are understood alike**: the table is read with its
columns, and with it alone the plan has one reference, which is valid if the property is a column
and rejected as a column otherwise. -/
def Agrees (d : TableText) (form : ColumnsForm) (file : String) (p : KeyName) : Prop :=
  ∃ t, (builderTables (d.text form) file).head? = some t ∧
    t.variableName = some d.variableName.string ∧ t.columns.names = d.columns.names ∧
    ∃ r, analyze (propertyPlan d.variableName p) (Schema.empty.addBuilt t) = [r] ∧
      if p.string ∈ d.columns.names then r.valid = true
      else r.valid = false ∧ r.category = some .column

/-- What is read of the property is judged by the columns of the table. -/
theorem judge?_addBuilt {t : Table} {m : Mention} {column : String}
    (hvariable : t.variableName = some m.ownerName) (hname : m.name = some column) :
    ∃ r, judge? (Schema.empty.addBuilt t) m = some r ∧
      if column ∈ t.columns.names then r.valid = true
      else r.valid = false ∧ r.category = some .column := by
  rw [judge?, resolve?_addBuilt hvariable]
  dsimp only
  rw [hname]
  dsimp only
  by_cases hcolumn : column ∈ t.columns.names
  · rw [if_pos ((Catalog.mem_names_iff _ _).mp hcolumn)]
    exact ⟨_, rfl, by rw [if_pos hcolumn]; rfl⟩
  · rw [if_neg (mt (Catalog.mem_names_iff _ _).mpr hcolumn)]
    exact ⟨_, rfl, by rw [if_neg hcolumn]; exact ⟨rfl, rfl⟩⟩

/-- **When a definition and a plan are understood alike**, in either form of the definition: the
variable has no dollar sign, and up to its first dollar sign the property may be a column and is one
exactly if it is one as a whole. -/
theorem agrees_iff (d : TableText) (form : ColumnsForm) (file : String) (p : KeyName) :
    Agrees d form file p ↔
      (∀ c ∈ d.variableName.chars, isWord c = true) ∧ MayBeRead d.variableName p ∧
        (String.ofList (readPart p) ∈ d.columns.names ↔ p.string ∈ d.columns.names) := by
  constructor
  · rintro ⟨t, htable, hvariable, hcolumns, r, hanalyze, hjudged⟩
    have hword := isWord_of_mem_builderTables (List.mem_of_head? htable) hvariable
    have hread : MayBeRead d.variableName p := by
      by_contra hread
      rw [analyze, mentions_propertyPlan_eq_nil _ _ hword hread] at hanalyze
      cases hanalyze
    obtain ⟨m, hmentions, howner, -, hname⟩ := exists_mentions_propertyPlan _ _ hword hread
    obtain ⟨r', hr', hvalid⟩ := judge?_addBuilt (howner ▸ hvariable) hname
    have hr : r' = r := by
      rw [analyze, hmentions, List.filterMap_cons_some hr'] at hanalyze
      exact List.head_eq_of_cons_eq hanalyze
    rw [hcolumns, hr] at hvalid
    refine ⟨hword, hread, fun h => ?_, fun h => ?_⟩
    · rw [if_pos h] at hvalid
      by_contra hp
      rw [if_neg hp, hvalid] at hjudged
      cases hjudged.1
    · rw [if_pos h] at hjudged
      by_contra hp
      rw [if_neg hp, hjudged] at hvalid
      cases hvalid.1
  · rintro ⟨hword, hread, hiff⟩
    obtain ⟨t, htable, -, hvariable, hcolumns⟩ := head?_builderTables d form file hword
    obtain ⟨m, hmentions, howner, -, hname⟩ := exists_mentions_propertyPlan _ _ hword hread
    obtain ⟨r, hr, hvalid⟩ := judge?_addBuilt (howner ▸ hvariable) hname
    refine ⟨t, htable, hvariable, hcolumns, r, ?_, ?_⟩
    · rw [analyze, hmentions, List.filterMap_cons_some hr]
      rfl
    · rwa [hcolumns, if_congr hiff rfl rfl] at hvalid

/-- The table `users` with the one column `a$b`. -/
def dollarTable : TableText where
  exportGap := .space
  constGap := .space
  variableName := ⟨"users".toList, by decide, by decide⟩
  equalsGaps := (⟨[' '], by decide⟩, ⟨[' '], by decide⟩)
  callGaps := (⟨[], by decide⟩, ⟨[], by decide⟩)
  name := "users".toList
  name_ne_nil := by decide
  name_unquoted := by decide
  commaGap := ⟨[], by decide⟩
  columns :=
    { properties :=
        [{ indent := ⟨[' '], by decide⟩
           key := ⟨"a$b".toList, by decide, by decide⟩
           gap := ⟨[], by decide⟩
           gap_unbroken := by decide
           value := " text(\"x\")".toList
           value_closed := by decide
           value_unbroken := by decide }]
      comma := false
      space := ⟨[' '], by decide⟩ }
  distinct := by decide
  after := [')']

/-- A column with a dollar sign is read of its definition and not recognized in the plan. -/
theorem dollar_column_not_recognized :
    ¬ ∀ (d : TableText) (form : ColumnsForm) (file : String) (p : KeyName),
      mayBeColumn d.variableName.string p.string = true → Agrees d form file p := by
  intro h
  let space : ColumnsForm := .literal ⟨[' '], by decide⟩
  let column : KeyName := ⟨"a$b".toList, by decide, by decide⟩
  obtain ⟨t, htable, -, -, r, hanalyze, hjudged⟩ :=
    h dollarTable space "schema.ts" column (by decide +kernel)
  have hvalid : (builderTables (dollarTable.text space) "schema.ts").head?.map (fun t =>
      (analyze (propertyPlan dollarTable.variableName column)
        (Schema.empty.addBuilt t)).map (·.valid)) = some [false] := by decide +kernel
  rw [htable, Option.map_some, hanalyze] at hvalid
  rw [if_pos (by decide)] at hjudged
  simp [hjudged] at hvalid

end PlanAudit.Sql
