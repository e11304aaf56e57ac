import PlanAudit.Proofs.Plan.Block
import PlanAudit.Proofs.Sql.Specifiers
import PlanAudit.Proofs.Text.FirstPerKey

/-!
# Plans that import and export

A plan whose only block of code is a statement that imports or exports mentions no table, unless the
specifier is taken for one.  The block is read twice, with its fences and without them, and either
copy of the statement stands behind a line feed.

## Main definitions

* `PlainBlock`: what stands around a statement in a plan without SQL

## Main results

* `exists_site`: where a table is read in the code of the plan
* `specifier_taken_iff`: the plan mentions a table exactly if the specifier is taken for one
* `react_taken_for_table`: a specifier that is taken for a table
-/

namespace PlanAudit.Sql

open Text Pattern

/-- What stands around a statement in a plan without SQL. -/
structure PlainBlock extends Plan.Block where
  before_callFree : CallFree before
  after_callFree : CallFree after
  /-- The language does not end like a keyword. -/
  tag_plain : ∀ k, k <:+ tag → ¬ IsTableKeyword k

variable (b : PlainBlock) (s : ModuleStatement)

/-! ## Tables given to query builders -/

section Calls

theorem accent_not_mem_chars : '\x60' ∉ s.chars := by
  have hhead : '\x60' ∉ s.head :=
    not_mem_of_laidOut (by decide) (by decide) (fun m => by cases m <;> decide) s.laidOut
  have hgap : '\x60' ∉ s.gap.chars := fun h => absurd (s.gap.blank _ h) (by decide)
  have hquote : '\x60' ≠ s.quote := by
    rcases s.quote_eq with h | h <;> rw [h] <;> decide
  have hspecifier : '\x60' ∉ s.specifier := fun h => (s.specifier_plain _ h).2.2 rfl
  cases hs : s.semicolon <;>
    simp [ModuleStatement.chars, ModuleStatement.origin, ModuleStatement.quoted, fromChars, hhead,
      hgap, hquote, hspecifier, hs]

theorem callFree_chars : CallFree s.chars := by
  have hhead : '.' ∉ s.head :=
    not_mem_of_laidOut (by decide) (by decide) (fun m => by cases m <;> decide) s.laidOut
  have hgap : '.' ∉ s.gap.chars := fun h => absurd (s.gap.blank _ h) (by decide)
  have hquote : ∀ w ∈ callWords, s.quote ∉ w.toList := by
    rcases s.quote_eq with h | h <;> rw [h] <;> decide
  have hchars : s.chars = (s.head ++ (fromChars ++ s.gap.chars)) ++
      s.quote :: (s.specifier ++ s.quote :: (if s.semicolon then [';'] else [])) := by
    simp [ModuleStatement.chars, ModuleStatement.origin, ModuleStatement.quoted]
  rw [hchars]
  refine (callFree_of_not_mem ?_).append_cons hquote
    (s.specifier_callFree.append_cons hquote (callFree_of_not_mem ?_))
  · simp [hhead, hgap, fromChars]
  · split <;> simp

/-- No call of a query builder stands in the plan. -/
theorem callFree_plan : CallFree (b.plan s.chars) := by
  have haccent : ∀ w ∈ callWords, '\x60' ∉ w.toList := by decide
  have hfeed : ∀ w ∈ callWords, '\n' ∉ w.toList := by decide
  have hnil : CallFree [] := callFree_of_not_mem List.not_mem_nil
  have htag : CallFree b.tag :=
    callFree_of_not_mem fun h => absurd (b.tag_word _ h) (by decide)
  have hplan : b.plan s.chars = b.before ++ '\x60' :: ([] ++ '\x60' :: ([] ++ '\x60' :: (b.tag ++
      '\n' :: (s.chars ++ '\n' :: ([] ++ '\x60' :: ([] ++ '\x60' :: ([] ++
        '\x60' :: b.after))))))) := by
    simp [Plan.Block.plan, Plan.Block.inside, Plan.fenceChars]
  rw [hplan]
  have hclose : CallFree ([] ++ '\x60' :: ([] ++ '\x60' :: ([] ++ '\x60' :: b.after))) :=
    hnil.append_cons haccent (hnil.append_cons haccent (hnil.append_cons haccent b.after_callFree))
  have hinside := htag.append_cons hfeed ((callFree_chars s).append_cons hfeed hclose)
  exact b.before_callFree.append_cons haccent (hnil.append_cons haccent
    (hnil.append_cons haccent hinside))

end Calls

/-! ## Tables behind keywords -/

section Site

variable {u w n : List Char}

theorem clear_fence (t : List Char) : Clear Plan.fenceChars t := clear_of_forall (by decide)

theorem clear_lineFeed (t : List Char) : Clear ['\n'] t := clear_of_forall (by decide)

theorem clear_tag (t : List Char) : Clear b.tag ('\n' :: (s.chars ++ t)) := by
  refine clear_word_of_gap (fun x hx => isBlank_eq_false_of_isWord (b.tag_word x hx))
    ⟨⟨['\n'], by decide⟩, by decide⟩ ?_ fun k hk hkeyword => absurd hkeyword (b.tag_plain k hk)
  obtain ⟨x, rest, hhead, -⟩ := s.laidOut.exists_word
  obtain ⟨y, k, hk⟩ := List.exists_cons_of_ne_nil s.clause.keyword.ne_nil
  rw [ModuleStatement.chars, hhead, hk]
  refine forall_head?_cons (not_blank_of_isKeyChar (s.clause.keyword.isKey y ?_))
  rw [hk]
  exact List.mem_cons_self

/-- What stands between the fences, with `t` behind it. -/
theorem site_inside {t : List Char} (hsplit : b.inside s.chars ++ t = u ++ w) (hn : NamesTable w n)
    (hkeyword : isKeyword (String.ofList n) = false) :
    (u = b.tag ++ '\n' :: s.head ∧ w = fromChars ++ (s.origin ++ ('\n' :: t)) ∧
      n = s.leadingName ∧ s.ReadsLikeTable) ∨ ∃ v, u = b.inside s.chars ++ v ∧ t = v ++ w := by
  have hsplit : b.tag ++ ('\n' :: (s.chars ++ ('\n' :: t))) = u ++ w := by
    simpa [Plan.Block.inside] using hsplit
  obtain ⟨u₁, rfl, h₁⟩ := (clear_tag b s ('\n' :: t)).pass hsplit ⟨n, hn, hkeyword⟩
  obtain ⟨u₂, rfl, h₂⟩ := (clear_lineFeed (s.chars ++ ('\n' :: t))).pass h₁ ⟨n, hn, hkeyword⟩
  rcases s.site h₂ hn hkeyword with ⟨rfl, hw, hname⟩ | ⟨u₃, rfl, h₃⟩
  · exact Or.inl ⟨rfl, hw, hname⟩
  · obtain ⟨u₄, rfl, h₄⟩ := (clear_lineFeed t).pass h₃ ⟨n, hn, hkeyword⟩
    exact Or.inr ⟨u₄, by simp [Plan.Block.inside], h₄⟩

/-- **Where a table is read in the code of the plan**: in either copy of the statement it is the
specifier, and a line feed stands in front of the statement. -/
theorem exists_site (hsplit : Plan.codeRegions (b.plan s.chars) = u ++ w) (hn : NamesTable w n)
    (hkeyword : isKeyword (String.ofList n) = false) :
    (∃ front t, u = front ++ '\n' :: s.head ∧ w = fromChars ++ (s.origin ++ '\n' :: t)) ∧
      n = s.leadingName ∧ s.ReadsLikeTable := by
  rw [b.codeRegions_plan (accent_not_mem_chars s)] at hsplit
  obtain ⟨u₁, rfl, h₁⟩ := (clear_fence _).pass hsplit ⟨n, hn, hkeyword⟩
  rcases site_inside b s h₁ hn hkeyword with ⟨rfl, hw, hname⟩ | ⟨u₂, rfl, h₂⟩
  · exact ⟨⟨Plan.fenceChars ++ b.tag, _, by simp, hw⟩, hname⟩
  obtain ⟨u₃, rfl, h₃⟩ := (clear_fence _).pass h₂ ⟨n, hn, hkeyword⟩
  obtain ⟨u₄, rfl, h₄⟩ := (clear_lineFeed (b.inside s.chars)).pass h₃ ⟨n, hn, hkeyword⟩
  rw [← List.append_nil (b.inside s.chars)] at h₄
  rcases site_inside b s h₄ hn hkeyword with ⟨rfl, hw, hname⟩ | ⟨u₅, rfl, h₅⟩
  · exact ⟨⟨Plan.fenceChars ++ (b.inside s.chars ++ (Plan.fenceChars ++ (['\n'] ++ b.tag))), _,
      by simp, hw⟩, hname⟩
  · -- Behind the second copy nothing is left.
    obtain ⟨-, rfl⟩ := List.append_eq_nil_iff.mp h₅.symm
    obtain ⟨x, rest, hnil, -⟩ := exists_letter_of_namesTable hn
    cases hnil

end Site

/-! ## The specifier -/

section Specifier

theorem lineAt_site (front t : List Char) :
    Plan.lineAt ((front ++ '\n' :: s.head) ++ (fromChars ++ (s.origin ++ '\n' :: t)))
      (front ++ '\n' :: s.head).length = s.line := by
  have hline : (fromChars ++ (s.origin ++ '\n' :: t)).takeWhile (· != '\n') =
      fromChars ++ s.origin := by
    rw [← List.append_assoc]
    refine takeWhile_append (fun x hx => bne_iff_ne.mpr ?_) (forall_head?_cons (by decide))
    rintro rfl
    rcases List.mem_append.mp hx with hx | hx
    · exact absurd hx (by decide)
    · exact s.lineFeed_not_mem_origin hx
  rw [Plan.lineAt_append, Plan.lastLine_append_cons, hline]
  rfl

/-- The table that is read in the first copy of the statement. -/
theorem exists_match_of_takenForTable (h : s.TakenForTable) :
    ∃ m ∈ tableAfterKeyword.findAll (Plan.codeRegions (b.plan s.chars)),
      m.group 1 = s.leadingName ∧
        Plan.lineAt (Plan.codeRegions (b.plan s.chars)) m.start = s.line := by
  obtain ⟨⟨hgap, hne, hunread⟩, -, hline⟩ := h
  let front := Plan.fenceChars ++ b.tag
  let t := Plan.fenceChars ++ '\n' :: b.inside s.chars
  have hcode : Plan.codeRegions (b.plan s.chars) =
      (front ++ '\n' :: s.head) ++ (fromChars ++ (s.origin ++ '\n' :: t)) := by
    rw [b.codeRegions_plan (accent_not_mem_chars s)]
    simp [front, t, Plan.Block.inside, ModuleStatement.chars]
  -- The line of the word `from` does not begin with `import` or `export`: the list of names spreads
  -- over several lines, and its closing brace stands in front of the word.
  have hfeed : '\n' ∈ s.head := by
    by_contra hfeed
    exact hline (s.startsModuleLine_of_unbroken hfeed)
  obtain ⟨v, g, hhead, hg⟩ := s.clause.exists_brace_of_lineFeed s.laidOut hfeed
  have hfront : front ++ '\n' :: s.head = (front ++ '\n' :: v) ++ '}' :: g := by simp [hhead]
  have hbefore : ∀ x ∈ (front ++ '\n' :: s.head).getLast?, isWord x = false := by
    intro x hx
    rw [hfront, List.getLast?_append_cons] at hx
    rcases List.mem_cons.mp (List.mem_of_getLast? hx) with rfl | hx
    · decide
    · exact isWord_eq_false_of_isBlank (hg x hx)
  have hname : NamedBy (s.quoted ++ '\n' :: t) s.leadingName :=
    s.namedBy_quoted.mpr ⟨rfl, hne, hunread⟩
  obtain ⟨m, hm⟩ := exists_matchHere_tableAfterKeyword hbefore ⟨s.gap, hgap⟩ hname
    (front ++ '\n' :: s.head).length
  rw [← List.append_assoc s.gap.chars] at hm
  have hstart := namesTable_of_matchHere hm
  refine ⟨m, ?_, ?_, ?_⟩
  · rw [hcode, hfront]
    rw [hfront] at hm
    exact mem_findAll_behind_brace hg hm
  · have hread := hstart.2
    rw [List.append_assoc] at hread
    have hfrom : ∀ x ∈ "from".toList, isBlank x = false := by decide
    obtain ⟨-, hname⟩ := of_namesTable_gap hfrom ⟨s.gap, hgap⟩
      (fun x hx => (s.head_quoted _ x hx).1) hread
    exact (s.namedBy_quoted.mp hname).1
  · rw [hstart.1, hcode]
    exact lineAt_site s front t

/-- What a keyword names in the plan is the specifier, which is taken for a table. -/
theorem of_mem_keywordMentions {m : Mention} (hm : m ∈ keywordMentions (b.plan s.chars)) :
    s.TakenForTable ∧ m.owner = some (String.ofList s.leadingName) := by
  obtain ⟨found, hfound, rfl⟩ := List.mem_map.mp hm
  obtain ⟨hfound, hkept⟩ := List.mem_filter.mp hfound
  rw [Bool.and_eq_true, Bool.not_eq_true', Bool.not_eq_true'] at hkept
  obtain ⟨u, w, hsplit, hmatch⟩ := exists_position_of_mem_findAll hfound
  obtain ⟨hstart, hn⟩ := namesTable_of_matchHere hmatch
  obtain ⟨⟨front, t, rfl, rfl⟩, hname, hreads⟩ := exists_site b s hsplit hn hkept.1
  rw [Match.name, hname, hsplit, hstart, lineAt_site] at hkept
  refine ⟨⟨hreads, hkept.1, fun hline => ?_⟩, ?_⟩
  · rw [ModuleStatement.matchesStart_moduleLine.mpr hline] at hkept
    cases hkept.2
  · rw [tableMention, Match.name, hname]

/-- The plan mentions a table exactly if the specifier is taken for one, and the table has the name
with which the specifier begins. -/
theorem exists_table_iff :
    ((∃ m ∈ mentions (b.plan s.chars), m.kind = .table) ↔ s.TakenForTable) ∧
      ∀ m ∈ mentions (b.plan s.chars), m.kind = .table →
        m.owner = some (String.ofList s.leadingName) := by
  have hmentions : mentions (b.plan s.chars) = firstPerKey (fun m => (m.ownerName, m.name))
      (columnMentions (b.plan s.chars) ++ keywordMentions (b.plan s.chars)) := by
    rw [mentions, builderMentions_eq_nil (callFree_plan b s), List.nil_append]
  -- A possible column is no table.
  have hcolumn : ∀ m ∈ columnMentions (b.plan s.chars), m.kind = .column ∧ m.name.isSome := by
    intro m hm
    obtain ⟨found, -, rfl⟩ := List.mem_map.mp hm
    exact ⟨rfl, rfl⟩
  have htable : ∀ m ∈ mentions (b.plan s.chars), m.kind = .table →
      m ∈ keywordMentions (b.plan s.chars) := by
    intro m hm hkind
    rw [hmentions] at hm
    rcases List.mem_append.mp (mem_of_mem_firstPerKey _ hm) with hm | hm
    · rw [(hcolumn m hm).1] at hkind
      cases hkind
    · exact hm
  refine ⟨⟨?_, fun htaken => ?_⟩, fun m hm hkind =>
    (of_mem_keywordMentions b s (htable m hm hkind)).2⟩
  · rintro ⟨m, hm, hkind⟩
    exact (of_mem_keywordMentions b s (htable m hm hkind)).1
  · obtain ⟨found, hfound, hname, hline⟩ := exists_match_of_takenForTable b s htaken
    have hmem : tableMention found none ∈ keywordMentions (b.plan s.chars) := by
      refine List.mem_map.mpr ⟨found, List.mem_filter.mpr ⟨hfound, ?_⟩, rfl⟩
      have hother : moduleLine.matchesStart s.line = false := by
        rw [← Bool.not_eq_true, ModuleStatement.matchesStart_moduleLine]
        exact htaken.2.2
      rw [hline, hother, Match.name, hname, htaken.2.1]
      rfl
    -- Of the mentions with the same owner and no name the first is left, and it is a table.
    obtain ⟨m, hm, hkey⟩ := exists_mem_firstPerKey (fun m : Mention => (m.ownerName, m.name))
      (List.mem_append_right (columnMentions (b.plan s.chars)) hmem)
    refine ⟨m, by rwa [hmentions], ?_⟩
    have hnone : m.name = none := congrArg Prod.snd hkey
    rcases List.mem_append.mp (mem_of_mem_firstPerKey _ hm) with hm | hm
    · have hsome := (hcolumn m hm).2
      rw [hnone] at hsome
      cases hsome
    · obtain ⟨found, -, rfl⟩ := List.mem_map.mp hm
      rfl

/-- **When the specifier of a statement that imports or exports is taken for a table**: never if the
statement stands on one line, and otherwise exactly if the word `from` stands on a line that does
not begin with `import` or `export` and the specifier reads like the name of a table. -/
theorem specifier_taken_iff :
    ('\n' ∉ s.head → ∀ m ∈ mentions (b.plan s.chars), m.kind ≠ .table) ∧
      ((∃ m ∈ mentions (b.plan s.chars), m.kind = .table) ↔ s.TakenForTable) ∧
      ∀ m ∈ mentions (b.plan s.chars), m.kind = .table →
        m.owner = some (String.ofList s.leadingName) := by
  obtain ⟨htaken, howner⟩ := exists_table_iff b s
  refine ⟨fun hfeed m hm hkind => ?_, htaken, howner⟩
  obtain ⟨-, -, hline⟩ := htaken.mp ⟨m, hm, hkind⟩
  exact hline (s.startsModuleLine_of_unbroken hfeed)

end Specifier

/-! ## A specifier that is taken for a table -/

/-- The end of a line and spaces on the next one. -/
def newLine (n : Nat) : Blanks :=
  ⟨'\n' :: (spaces n).chars, List.forall_mem_cons.mpr ⟨by decide, (spaces n).blank⟩⟩

/-- The word `useState`. -/
def useState : KeyName := ⟨"useState".toList, by decide, by decide⟩

/-- `import { useState } from 'react';` with the name on a line of its own. -/
def reactImport : ModuleStatement where
  clause := .importGroup (.listed ⟨[], some ⟨useState, none⟩⟩)
  head := importWord.chars ++ ((spaces 1).chars ++ (['{'] ++ ((newLine 2).chars ++
    (useState.chars ++ ((newLine 0).chars ++ (['}'] ++ ((spaces 1).chars ++ [])))))))
  laidOut :=
    @LaidOut.cons false (.word importWord) _ (spaces 1) _ (by decide) (fun _ => by decide)
      (@LaidOut.cons false (.mark .opening) _ (newLine 2) _ (fun _ => rfl) nofun
        (@LaidOut.cons true (.word useState) _ (newLine 0) _ (fun _ => rfl) nofun
          (@LaidOut.cons true (.mark .closing) _ (spaces 1) _ (by decide) nofun .nil)))
  gap := spaces 1
  gap_unbroken := by decide
  quote := '\''
  quote_eq := Or.inl rfl
  specifier := "react".toList
  specifier_plain := by decide
  specifier_callFree := callFree_of_not_mem (by decide)
  semicolon := true

/-- A plan that is a block of TypeScript. -/
def scriptBlock : PlainBlock where
  before := []
  tag := "ts".toList
  after := []
  before_plain := by decide
  tag_word := by decide
  after_plain := by decide
  before_callFree := callFree_of_not_mem (by decide)
  after_callFree := callFree_of_not_mem (by decide)
  tag_plain := fun k hk =>
    (show ∀ k ∈ "ts".toList.tails, ¬ IsTableKeyword k by decide) k ((List.mem_tails _ _).mpr hk)

/-- With the names on lines of their own, `react` is taken for a table. -/
theorem react_taken_for_table :
    String.ofList (scriptBlock.plan reactImport.chars) =
        "\x60\x60\x60ts\nimport \x7b\n  useState\n\x7d from 'react';\n\x60\x60\x60" ∧
      ¬ ∀ (b : PlainBlock) (s : ModuleStatement), ∀ m ∈ mentions (b.plan s.chars),
        m.kind ≠ .table := by
  refine ⟨by decide +kernel, fun h => ?_⟩
  have hfound : (mentions (scriptBlock.plan reactImport.chars)).map (·.kind) = [.table] := by
    decide +kernel
  obtain ⟨m, hm, hkind⟩ := List.mem_map.mp (hfound ▸ List.mem_singleton_self Kind.table)
  exact h scriptBlock reactImport m hm hkind

end PlanAudit.Sql
