import Mathlib.Data.List.Perm.Basic
import PlanAudit.Proofs.Pattern.Quiet
import PlanAudit.Proofs.Prisma.Passes
import PlanAudit.Proofs.Prisma.Written

/-!
# Rearranging a schema

The models of a text stand between gaps in which no model is opened.  What is found as a model does
not depend on where it stands: a gap that ends in a line feed opens no model with the help of the
one behind it.  The models of a text can therefore change places, and if their names are distinct
the schema has the same models afterwards.

## Main definitions

* `ModelBlock`: a model in any text, from its head to a brace behind a line feed
* `exchange`: a text with other pieces in the place of its matches
* `Rearranges`: a text in which the models of another one have changed places
* `Gaps`: what stands between models

## Main results

* `exists_modelBlock_of_matchHere`: what is found is such a model
* `exists_gaps`: every text consists of models and of gaps between them
* `perm_nameAndBody_of_rearranges`: the models that are found are the same ones
* `modelFor?_of_rearranges`: an accessor leads to the same model if the accessors are distinct
* `relations_of_parse`: the flags of the fields, and that the order of the models does not matter
-/

namespace PlanAudit.Prisma

open Text Pattern

/-! ## Models in a text -/

/-- The name and the body of a model that is found. -/
def nameAndBody (m : Match) : String × List Char := (m.name 1, m.group 2)

/-- A model in any text: from its head to the first brace behind a line feed. -/
structure ModelBlock where
  /-- The head of the model. -/
  heading : Heading
  /-- What stands between the braces. -/
  body : List Char
  /-- The closing brace stands behind a line feed. -/
  feed : body.getLast? = some '\n'
  /-- No brace in front of it does. -/
  first : ¬ ['\n', '}'] <:+: body

namespace ModelBlock

/-- The text of the model. -/
def chars (b : ModelBlock) : List Char := b.heading.chars .model ++ (b.body ++ ['}'])

/-- The name and the body of the model. -/
def nameAndBody (b : ModelBlock) : String × List Char := (b.heading.name.string, b.body)

variable (b : ModelBlock)

theorem ne_nil : b.chars ≠ [] := by simp [chars]

theorem getLast?_chars : b.chars.getLast? = some '}' := by
  rw [chars, ← List.append_assoc, List.getLast?_concat]

/-- **A model is found** where it starts a line, wherever that is. -/
theorem exists_matchHere {before : Option Char} (hstart : StartsLine before) (offset : Nat)
    (t : List Char) : ∃ m, modelBlock.matchHere before offset (b.chars ++ t) = some m ∧
      m.stop = offset + b.chars.length ∧ Prisma.nameAndBody m = b.nameAndBody := by
  obtain ⟨m, hm, hstop, hname, hbody⟩ :=
    exists_matchHere_heading b.heading hstart offset b.body t b.first b.feed
  refine ⟨m, ?_, hstop, Prod.ext hname hbody⟩
  rw [← hm, chars]
  simp

/-- A brace stands behind a line feed in the text of a model. -/
theorem infix_chars : ['\n', '}'] <:+: b.chars := by
  obtain ⟨body, hbody⟩ := List.getLast?_eq_some_iff.mp b.feed
  exact ⟨b.heading.chars .model ++ body, [], by simp [chars, hbody]⟩

theorem calm_append (t : List Char) : Calm (b.chars ++ t) := by
  rw [chars, List.append_assoc]
  exact b.heading.calm_append .model _

end ModelBlock

/-- What stands in front of the first brace behind a line feed. -/
theorem exists_first_brace {t : List Char} (h : ['\n', '}'] <:+: t) :
    ∃ u v, t = u ++ ('\n' :: '}' :: v) ∧ ¬ ['\n', '}'] <:+: u ++ ['\n'] := by
  induction t with
  | nil => exact absurd h (by decide)
  | cons x t ih =>
    by_cases hhere : ['\n', '}'] <+: x :: t
    · obtain ⟨v, hv⟩ := hhere
      exact ⟨[], v, hv.symm, by decide⟩
    · obtain ⟨u, v, rfl, hfirst⟩ := ih ((List.infix_cons_iff.mp h).resolve_left hhere)
      refine ⟨x :: u, v, rfl, fun hin => ?_⟩
      -- A brace at the start would stand at the start of the whole text.
      rcases List.infix_cons_iff.mp hin with hstarts | hin
      · exact hhere (hstarts.trans (by simp))
      · exact hfirst hin

/-- A text that opens a model and has a brace behind a line feed later starts with a model. -/
theorem exists_modelBlock {h : Heading} {t : List Char} (hbrace : ['\n', '}'] <:+: t) :
    ∃ b : ModelBlock, ∃ rest, h.chars .model ++ t = b.chars ++ rest := by
  obtain ⟨u, v, rfl, hfirst⟩ := exists_first_brace hbrace
  exact ⟨⟨h, u ++ ['\n'], List.getLast?_concat, hfirst⟩, v, by simp [ModelBlock.chars]⟩

/-- **What is found is a model** that stands at the position. -/
theorem exists_modelBlock_of_matchHere {before : Option Char} {offset : Nat} {t : List Char}
    {m : Match} (hm : modelBlock.matchHere before offset t = some m) :
    StartsLine before ∧ ∃ b : ModelBlock, ∃ rest, t = b.chars ++ rest := by
  obtain ⟨d, hd, -⟩ := exists_outcome_of_matchHere hm
  obtain ⟨c₃, hd, hbrace⟩ := mem_outcomes_append.mp hd
  obtain ⟨c₂, hd, hline⟩ := mem_outcomes_append.mp hd
  obtain ⟨c₁, hhead, hbody⟩ := mem_outcomes_append.mp hd
  obtain ⟨hstart, hbefore, h, hrest⟩ :=
    exists_heading_of_mem_blockHead .model hhead
  obtain ⟨e, hrun, rfl⟩ := mem_outcomes_capture.mp hbody
  obtain ⟨hfeed, rfl⟩ := mem_outcomes_here.mp hline
  obtain ⟨body, hsplit, hbehind, -⟩ :=
    exists_eq_behind (p := starLazy anything) trivial (readsOnly_true _) c₁ e hrun
  -- The brace stands at the start of a line, and so behind a line feed of the body.
  have hlast : body.getLast? = some '\n' := by
    rw [hbehind] at hfeed
    cases hlast : body.getLast? with
    | none => simp [Cursor.record, Cursor.behind, hlast, hbefore] at hfeed
    | some x => simpa [Cursor.record, Cursor.behind, hlast] using hfeed
  obtain ⟨body, rfl⟩ := List.getLast?_eq_some_iff.mp hlast
  have hrest' : e.rest = '}' :: d.rest := (reads_of_mem_char hbrace).rest_eq
  obtain ⟨b, rest, hblock⟩ := exists_modelBlock (h := h) (t := c₁.rest)
    ⟨body, d.rest, by simp [hsplit, hrest']⟩
  exact ⟨hstart, b, rest, hrest.trans hblock⟩

/-! ## Gaps in front of models -/

/-- A line feed in the head of a block stands in front of its name or of its brace, so that what
follows it is not calm. -/
theorem not_calm_of_chars_eq {h : Heading} {kind : BlockKind} {s a : List Char}
    (hs : h.chars kind = s ++ '\n' :: a) (t : List Char) : ¬ Calm (a ++ t) := by
  intro hcalm
  have hkeyword : '\n' ∉ kind.keyword.toList := fun hmem => absurd (kind.word _ hmem) (by decide)
  obtain ⟨s, rfl⟩ := exists_eq_append_of_not_mem hkeyword hs
  rw [Heading.chars, List.append_assoc] at hs
  rcases List.append_eq_append_iff.mp (List.append_cancel_left hs) with
    ⟨u, -, hu⟩ | ⟨gap, hgap, ha⟩
  · -- It stands behind the name.
    obtain ⟨v, rfl⟩ := exists_eq_append_of_not_mem (unbroken_word h.name) hu
    rw [List.append_assoc] at hu
    rcases List.append_eq_append_iff.mp (List.append_cancel_left hu) with
      ⟨w, -, hw⟩ | ⟨space, hspace, ha⟩
    · rcases List.append_eq_singleton_iff.mp hw.symm with ⟨-, hw⟩ | ⟨-, hw⟩ <;> simp at hw
    · rcases List.cons_eq_append_iff.mp ha with ⟨-, ha⟩ | ⟨space, rfl, rfl⟩
      · simp at ha
      · have hblank := h.space.blank
        rw [hspace] at hblank
        have hstrip : stripStart ((space ++ ['{']) ++ t) = '{' :: t := by
          rw [List.append_assoc, stripStart_append fun c hc => hblank c (by simp [hc])]
          exact stripStart_eq_self (forall_head?_cons (by decide))
        exact hcalm.no_brace '{' (by rw [hstrip]; rfl) rfl
  · -- It stands in front of the name.
    rcases List.cons_eq_append_iff.mp ha with ⟨-, ha⟩ | ⟨gap, rfl, rfl⟩
    · have hhead := h.name.head_word (h.space.chars ++ ['{']) '\n' (by rw [ha]; rfl)
      exact absurd hhead (by decide)
    · have hblank := h.gap.blank
      rw [hgap] at hblank
      have hstrip : stripStart ((gap ++ (h.name.chars ++ (h.space.chars ++ ['{']))) ++ t) =
          h.name.chars ++ (h.space.chars ++ '{' :: t) := by
        simp only [List.append_assoc, List.singleton_append]
        exact h.stripStart_name _ fun c hc => hblank c (by simp [hc])
      rcases hcalm.no_block with hnone | hnone
      · rw [hstrip, takeWhile_append h.name.word (h.behind_name t)] at hnone
        exact h.name.ne_nil hnone
      · rw [hstrip, h.afterName_name] at hnone
        exact hnone '{' rfl rfl

/-- **A text that ends in a line feed** opens a block in front of a calm text only if it does so on
its own. -/
theorem opens_of_opens_append {kind : BlockKind} {s t : List Char} (hs : s.getLast? = some '\n')
    (ht : Calm t) (hopens : Opens kind (s ++ t)) : Opens kind s := by
  obtain ⟨h, rest, hsplit⟩ := hopens
  rcases List.append_eq_append_iff.mp hsplit with ⟨a, ha, rfl⟩ | ⟨a, rfl, -⟩
  · obtain ⟨s, rfl⟩ := List.getLast?_eq_some_iff.mp hs
    exact absurd ht (not_calm_of_chars_eq (by simpa using ha) rest)
  · exact ⟨h, a, rfl⟩

/-- In the gap behind `before` no model is opened. -/
def OpensNone (before : Option Char) (gap : List Char) : Prop :=
  ∀ u s, gap = u ++ s → s ≠ [] → StartsLine (u.getLast?.or before) → ¬ Opens .model s

section OpensNone

variable {before : Option Char} {gap : List Char}

/-- **In front of any model** such a gap is quiet. -/
theorem OpensNone.quiet (h : OpensNone before gap) (hline : StartsLine (gap.getLast?.or before))
    (b : ModelBlock) (t : List Char) : modelBlock.Quiet before gap (b.chars ++ t) := by
  refine quiet_of_forall fun u s hsplit hs c d hbefore hrest hd => ?_
  obtain ⟨hstart, hopens⟩ := heads_modelBlock c d hd
  rw [hbefore] at hstart
  rw [hrest] at hopens
  refine h u s hsplit hs hstart (opens_of_opens_append ?_ (b.calm_append t) hopens)
  -- The gap ends in front of a line, and so does what is left of it.
  obtain ⟨x, hx⟩ : ∃ x, s.getLast? = some x := ⟨_, List.getLast?_eq_getLast_of_ne_nil hs⟩
  rw [hsplit, List.getLast?_append, hx, Option.some_or, Option.some_or] at hline
  rw [hx]
  exact hline.resolve_left nofun

/-- A gap that is quiet in front of a model opens none. -/
theorem opensNone_of_quiet {b : ModelBlock} {t : List Char}
    (h : modelBlock.Quiet before gap (b.chars ++ t)) : OpensNone before gap := by
  rintro u s rfl hs hstart hopens
  obtain ⟨heading, rest, rfl⟩ := hopens
  have hbrace : ['\n', '}'] <:+: rest ++ (b.chars ++ t) :=
    b.infix_chars.trans ⟨rest, t, by simp⟩
  -- The model that is opened would be closed by the brace of the next one at the latest.
  obtain ⟨b', rest', hblock⟩ := exists_modelBlock (h := heading) hbrace
  obtain ⟨m, hm, -⟩ := b'.exists_matchHere hstart 0 rest'
  rw [← hblock, ← List.append_assoc] at hm
  obtain ⟨x, s, hx⟩ := List.exists_cons_of_ne_nil hs
  have hquiet := (quiet_append.mp h).2
  rw [hx] at hquiet hm
  rw [List.cons_append, hquiet.1 0] at hm
  cases hm

end OpensNone

/-! ## Texts of models and gaps -/

/-- The text in which the pieces stand behind the gaps, and `last` behind all of them. -/
def weave (last : List Char) : List (List Char) → List (List Char) → List Char
  | [], _ => last
  | _, [] => last
  | gap :: gaps, piece :: pieces => gap ++ (piece ++ weave last gaps pieces)

/-- The gaps open no models, each ends where a line starts, and in `last` no model is found. -/
def Gaps (last : List Char) : Option Char → List (List Char) → Prop
  | before, [] => ∀ offset, modelBlock.findScan 0 before offset last = []
  | before, gap :: gaps =>
    (OpensNone before gap ∧ StartsLine (gap.getLast?.or before)) ∧ Gaps last (some '}') gaps

/-- **The first model of a text**, if there is one. -/
theorem exists_gap (before : Option Char) (text : List Char) :
    (∀ offset, modelBlock.findScan 0 before offset text = []) ∨
      ∃ gap, ∃ b : ModelBlock, ∃ rest, text = gap ++ (b.chars ++ rest) ∧ OpensNone before gap ∧
        StartsLine (gap.getLast?.or before) := by
  suffices h : (∀ offset, modelBlock.findScan 0 before offset text = []) ∨
      ∃ gap, ∃ b : ModelBlock, ∃ rest, text = gap ++ (b.chars ++ rest) ∧
        modelBlock.Quiet before gap (b.chars ++ rest) ∧ StartsLine (gap.getLast?.or before) from
    h.imp_right fun ⟨gap, b, rest, hsplit, hquiet, hline⟩ =>
      ⟨gap, b, rest, hsplit, opensNone_of_quiet hquiet, hline⟩
  induction text generalizing before with
  | nil =>
    left
    intro offset
    rw [findScan, Option.toList_eq_nil_iff]
    by_contra hm
    obtain ⟨m, hm⟩ := Option.ne_none_iff_exists'.mp hm
    obtain ⟨-, b, rest, hsplit⟩ := exists_modelBlock_of_matchHere hm
    exact b.ne_nil (List.append_eq_nil_iff.mp hsplit.symm).1
  | cons x text ih =>
    -- Either the first model stands here, or the gap in front of it takes up the character.
    by_cases hhere : StartsLine before ∧ ∃ b : ModelBlock, ∃ rest, x :: text = b.chars ++ rest
    · obtain ⟨hstart, b, rest, hsplit⟩ := hhere
      exact Or.inr ⟨[], b, rest, hsplit, trivial, hstart⟩
    · have hnone : ∀ offset, modelBlock.matchHere before offset (x :: text) = none := by
        intro offset
        by_contra hm
        obtain ⟨m, hm⟩ := Option.ne_none_iff_exists'.mp hm
        exact hhere (exists_modelBlock_of_matchHere hm)
      rcases ih (some x) with hnil | ⟨gap, b, rest, rfl, hquiet, hline⟩
      · left
        intro offset
        rw [findScan, hnone]
        exact hnil (offset + 1)
      · refine Or.inr ⟨x :: gap, b, rest, rfl, ⟨hnone, hquiet⟩, ?_⟩
        rwa [List.getLast?_cons, Option.some_or, ← Option.or_some]

/-- **Every text consists of models and of gaps between them.** -/
theorem exists_gaps (before : Option Char) (text : List Char) :
    ∃ (gaps : List (List Char)) (blocks : List ModelBlock) (last : List Char),
      gaps.length = blocks.length ∧ text = weave last gaps (blocks.map ModelBlock.chars) ∧
        Gaps last before gaps := by
  -- Induction on the length of the text, of which the first model takes something away.
  induction hn : text.length using Nat.strong_induction_on generalizing before text with
  | _ n ih =>
    rcases exists_gap before text with hnil | ⟨gap, b, rest, rfl, hnone, hline⟩
    · exact ⟨[], [], text, rfl, rfl, hnil⟩
    · have hshort : rest.length < n := by
        have hpos := List.length_pos_of_ne_nil b.ne_nil
        rw [← hn, List.length_append, List.length_append]
        omega
      obtain ⟨gaps, blocks, last, hlength, rfl, hgaps⟩ := ih _ hshort (some '}') rest rfl
      exact ⟨gap :: gaps, b :: blocks, last, congrArg Nat.succ hlength, rfl, ⟨hnone, hline⟩, hgaps⟩

/-- The text, which starts at `position`, with the pieces in the place of the matches. -/
def exchange (position : Nat) : List Match → List (List Char) → List Char → List Char
  | m :: ms, piece :: pieces, text =>
    text.take (m.start - position) ++
      (piece ++ exchange m.stop ms pieces (text.drop (m.stop - position)))
  | _, _, text => text

/-- What a search finds first, if a gap and a model come first. -/
theorem findScan_gap {before : Option Char} {gap : List Char} (hnone : OpensNone before gap)
    (hline : StartsLine (gap.getLast?.or before)) (b : ModelBlock) (t : List Char) (offset : Nat) :
    ∃ m, modelBlock.findScan 0 before offset (gap ++ (b.chars ++ t)) =
        m :: modelBlock.findScan 0 (some '}') (offset + gap.length + b.chars.length) t ∧
      m.start = offset + gap.length ∧ m.stop = offset + gap.length + b.chars.length ∧
      m.text = b.chars ∧ nameAndBody m = b.nameAndBody := by
  obtain ⟨m, hm, hstop, hread⟩ := b.exists_matchHere hline (offset + gap.length) t
  obtain ⟨d, -, hd⟩ := exists_outcome_of_matchHere hm
  have hstart : m.start = offset + gap.length := by rw [hd]
  have htail : m.tail = b.chars ++ t := by rw [hd]
  refine ⟨m, ?_, hstart, hstop, ?_, hread⟩
  · rw [findScan_append_of_quiet (hnone.quiet hline b t), findScan_append_of_matchHere b.ne_nil hm
      hstop, b.getLast?_chars, Option.some_or]
  · rw [Match.text, htail, hstart, hstop, Nat.add_sub_cancel_left, List.take_left]

section Weave

variable {last : List Char} {before : Option Char} {gaps : List (List Char)}
  {blocks : List ModelBlock}

/-- **What is found in a text** of models and gaps is the models. -/
theorem map_findScan_weave (h : Gaps last before gaps) (hlength : gaps.length = blocks.length)
    (offset : Nat) :
    (modelBlock.findScan 0 before offset (weave last gaps (blocks.map ModelBlock.chars))).map
        (fun m => (m.text, nameAndBody m)) =
      blocks.map fun b => (b.chars, b.nameAndBody) := by
  induction gaps generalizing before blocks offset with
  | nil =>
    obtain rfl := List.length_eq_zero_iff.mp hlength.symm
    rw [weave, h]
    rfl
  | cons gap gaps ih =>
    obtain ⟨b, blocks, rfl⟩ := List.exists_cons_of_length_eq_add_one hlength.symm
    obtain ⟨⟨hnone, hline⟩, hrest⟩ := h
    obtain ⟨m, hfind, -, -, htext, hread⟩ := findScan_gap hnone hline b
      (weave last gaps (blocks.map ModelBlock.chars)) offset
    rw [List.map_cons, weave, hfind, List.map_cons, ih hrest (Nat.succ.inj hlength), htext, hread,
      List.map_cons]

/-- **The models of such a text are exchanged** one by one. -/
theorem exchange_weave (h : Gaps last before gaps) (hlength : gaps.length = blocks.length)
    {pieces : List (List Char)} (hpieces : gaps.length = pieces.length) (offset : Nat) :
    exchange offset (modelBlock.findScan 0 before offset
        (weave last gaps (blocks.map ModelBlock.chars))) pieces
        (weave last gaps (blocks.map ModelBlock.chars)) = weave last gaps pieces := by
  induction gaps generalizing before blocks pieces offset with
  | nil =>
    obtain rfl := List.length_eq_zero_iff.mp hlength.symm
    obtain rfl := List.length_eq_zero_iff.mp hpieces.symm
    rw [weave, h, weave]
    rfl
  | cons gap gaps ih =>
    obtain ⟨b, blocks, rfl⟩ := List.exists_cons_of_length_eq_add_one hlength.symm
    obtain ⟨piece, pieces, rfl⟩ := List.exists_cons_of_length_eq_add_one hpieces.symm
    obtain ⟨⟨hnone, hline⟩, hrest⟩ := h
    obtain ⟨m, hfind, hstart, hstop, -, -⟩ := findScan_gap hnone hline b
      (weave last gaps (blocks.map ModelBlock.chars)) offset
    have hstop' : m.stop - offset = (gap ++ b.chars).length := by
      rw [hstop, List.length_append]
      omega
    have hdrop : ∀ t, (gap ++ (b.chars ++ t)).drop (m.stop - offset) = t := fun t => by
      rw [hstop', ← List.append_assoc, List.drop_left]
    rw [List.map_cons, weave, hfind, exchange, hdrop, hstart, Nat.add_sub_cancel_left,
      List.take_left, hstop, ih hrest (Nat.succ.inj hlength) (Nat.succ.inj hpieces), weave]

end Weave

/-! ## Models that change places -/

/-- The second text is the first one in which the models have changed places. -/
def Rearranges (content content' : List Char) : Prop :=
  ∃ pieces : List (List Char), pieces.Perm ((modelBlock.findAll content).map Match.text) ∧
    content' = exchange 0 (modelBlock.findAll content) pieces content

section Rearranges

variable {content content' : List Char}

/-- The texts, the names and the bodies of the models that are found. -/
theorem map_findAll_weave {last : List Char} {gaps : List (List Char)} {blocks : List ModelBlock}
    (hgaps : Gaps last none gaps) (hlength : gaps.length = blocks.length) :
    (modelBlock.findAll (weave last gaps (blocks.map ModelBlock.chars))).map Match.text =
        blocks.map ModelBlock.chars ∧
      (modelBlock.findAll (weave last gaps (blocks.map ModelBlock.chars))).map nameAndBody =
        blocks.map ModelBlock.nameAndBody := by
  have hfound := map_findScan_weave hgaps hlength 0
  have htexts := congrArg (List.map Prod.fst) hfound
  have hread := congrArg (List.map Prod.snd) hfound
  rw [List.map_map, List.map_map] at htexts hread
  exact ⟨htexts, hread⟩

/-- **The models that are found** are the same ones in another order. -/
theorem perm_nameAndBody_of_rearranges (h : Rearranges content content') :
    ((modelBlock.findAll content').map nameAndBody).Perm
      ((modelBlock.findAll content).map nameAndBody) := by
  obtain ⟨pieces, hperm, rfl⟩ := h
  obtain ⟨gaps, blocks, last, hlength, rfl, hgaps⟩ := exists_gaps none content
  rw [(map_findAll_weave hgaps hlength).1] at hperm
  -- The pieces are the texts of the same models.
  have htexts : List.Forall₂ (fun piece (b : ModelBlock) => piece = b.chars)
      (blocks.map ModelBlock.chars) blocks :=
    List.forall₂_map_left_iff.mpr (List.forall₂_same.mpr fun _ _ => rfl)
  obtain ⟨blocks', hforall, hblocks⟩ := List.perm_comp_forall₂ hperm htexts
  obtain rfl : pieces = blocks'.map ModelBlock.chars := by
    rw [← List.forall₂_eq_eq_eq, List.forall₂_map_right_iff]
    exact hforall
  have hlength' : gaps.length = blocks'.length := hlength.trans hblocks.length_eq.symm
  have hexchange : exchange 0 (modelBlock.findAll (weave last gaps (blocks.map ModelBlock.chars)))
      (blocks'.map ModelBlock.chars) (weave last gaps (blocks.map ModelBlock.chars)) =
        weave last gaps (blocks'.map ModelBlock.chars) :=
    exchange_weave hgaps hlength (by rw [hlength', List.length_map]) 0
  rw [hexchange, (map_findAll_weave hgaps hlength').2, (map_findAll_weave hgaps hlength).2]
  exact hblocks.map _

/-- The model of a name and a body, where models of the given names are known. -/
def modelFrom (models : List String) (p : String × List Char) : Model where
  name := p.1
  accessor := accessor p.1
  fields := Catalog.ofList
    (((p.2.splitOn '\n').filterMap fun line => fieldOf? models (strip line)).map
      fun f => (f.name, f))

theorem modelOf_eq_modelFrom (models : List String) (m : Match) :
    modelOf models m = modelFrom models (nameAndBody m) := rfl

/-- The models of a text, where it is known which names they have. -/
theorem map_modelOf_findAll {names : List String} {text : List Char}
    (h : ∀ n, n ∈ declaredModels text ↔ n ∈ names) :
    (modelBlock.findAll text).map (modelOf (declaredModels text)) =
      ((modelBlock.findAll text).map nameAndBody).map (modelFrom names) := by
  rw [List.map_map]
  exact List.map_congr_left fun m _ => (modelOf_congr h m).trans (modelOf_eq_modelFrom names m)

/-- **The models that are read** are the same ones in another order. -/
theorem perm_models_of_rearranges (h : Rearranges content content') :
    ((modelBlock.findAll content').map (modelOf (declaredModels content'))).Perm
      ((modelBlock.findAll content).map (modelOf (declaredModels content))) := by
  have hperm := perm_nameAndBody_of_rearranges h
  have hnames : (declaredModels content').Perm (declaredModels content) := by
    have hfirst := hperm.map Prod.fst
    rwa [List.map_map, List.map_map] at hfirst
  rw [map_modelOf_findAll fun n => hnames.mem_iff, map_modelOf_findAll fun n => Iff.rfl]
  exact hperm.map _

/-- What is read of the models and is listed by keys that are distinct is listed as before. -/
theorem find?_ofList_of_rearranges {α : Type} {value : Model → α} {key : Model → String}
    (hdistinct : (((modelBlock.findAll content).map (modelOf (declaredModels content))).map
      key).Nodup) (h : Rearranges content content') (name : String) :
    (Catalog.ofList (((modelBlock.findAll content').map (modelOf (declaredModels content'))).map
        fun m => (key m, value m))).find? name =
      (Catalog.ofList (((modelBlock.findAll content).map (modelOf (declaredModels content))).map
        fun m => (key m, value m))).find? name := by
  refine Catalog.find?_ofList_of_perm ?_ ((perm_models_of_rearranges h).map _) name
  rw [List.map_map]
  exact hdistinct

/-- **The models of the schema** and their accessors are the same ones. -/
theorem find?_models_of_rearranges (hdistinct : (declaredModels content).Nodup)
    (h : Rearranges content content') (name : String) :
    (Schema.parse content').models.find? name = (Schema.parse content).models.find? name ∧
      (Schema.parse content').modelToAccessor.find? name =
        (Schema.parse content).modelToAccessor.find? name := by
  have hnames : (((modelBlock.findAll content).map (modelOf (declaredModels content))).map
      Model.name).Nodup := by
    rw [List.map_map]
    exact hdistinct
  rw [parse_eq_ofModels, parse_eq_ofModels]
  exact ⟨find?_ofList_of_rearranges hnames h name, find?_ofList_of_rearranges hnames h name⟩

/-- Which model an accessor leads to stays the same if the accessors are distinct: of two models
with the same accessor the last one counts. -/
theorem modelFor?_of_rearranges
    (hdistinct : ((declaredModels content).map accessor).Nodup)
    (h : Rearranges content content') (name : String) :
    (Schema.parse content').modelFor? name = (Schema.parse content).modelFor? name := by
  have haccessors : (((modelBlock.findAll content).map (modelOf (declaredModels content))).map
      Model.accessor).Nodup := by
    rw [declaredModels, List.map_map] at hdistinct
    rw [List.map_map]
    exact hdistinct
  have hmodels := fun found => (find?_models_of_rearranges (hdistinct.of_map accessor) h found).1
  have hfound : (Schema.parse content').accessorToModel.find? name =
      (Schema.parse content).accessorToModel.find? name := by
    rw [parse_eq_ofModels, parse_eq_ofModels]
    exact find?_ofList_of_rearranges haccessors h name
  rw [Schema.modelFor?, Schema.modelFor?, hfound]
  exact Option.bind_congr fun found _ => hmodels found

end Rearranges

/-- **Relations do not depend on the order of the models.**  A stored field leads to a model exactly
if its type is the name of one that is declared anywhere in the text, or the line from which it is
read says so; and where models with distinct names change places, every model stays as it is and so
does its accessor. -/
theorem relations_of_parse (content : List Char) :
    (∀ name model field f, (Schema.parse content).models.find? name = some model →
      model.fields.find? field = some f →
        ∃ line plain, sourceLine? content name field = some line ∧
          fieldOf? [] (strip line) = some plain ∧ f.name = plain.name ∧ f.type = plain.type ∧
            (f.isRelation = true ↔
              f.type ∈ declaredModels content ∨ relationMark <:+: line)) ∧
    ((declaredModels content).Nodup → ∀ content', Rearranges content content' → ∀ name,
      (Schema.parse content').models.find? name = (Schema.parse content).models.find? name ∧
        (Schema.parse content').modelToAccessor.find? name =
          (Schema.parse content).modelToAccessor.find? name) :=
  ⟨fun _ _ _ _ => isRelation_of_find?, fun hdistinct _ => find?_models_of_rearranges hdistinct⟩

/-- A model with a field that leads to a model further down. -/
def forward : List Char :=
  "model Post \x7b\n  author User\n\x7d\nmodel User \x7b\n  name String\n\x7d".toList

/-- The same models, the other one first. -/
def backward : List Char :=
  "model User \x7b\n  name String\n\x7d\nmodel Post \x7b\n  author User\n\x7d".toList

/-- The field leads to a model, whichever of the two stands first. -/
theorem relations_of_forward :
    (∃ model f, (Schema.parse forward).models.find? "Post" = some model ∧
      model.fields.find? "author" = some f ∧
        (f.isRelation = true ↔ f.type ∈ declaredModels forward ∨
          relationMark <:+: "  author User".toList)) ∧
    (declaredModels forward).Nodup ∧ Rearranges forward backward ∧
      (Schema.parse backward).models.find? "Post" =
        (Schema.parse forward).models.find? "Post" ∧
      (Schema.parse backward).modelToAccessor.find? "Post" =
        (Schema.parse forward).modelToAccessor.find? "Post" := by
  obtain ⟨hflags, horder⟩ := relations_of_parse forward
  have hdistinct : (declaredModels forward).Nodup := by decide
  have hrearranged : Rearranges forward backward := by
    refine ⟨["model User \x7b\n  name String\n\x7d".toList,
      "model Post \x7b\n  author User\n\x7d".toList], ?_, by decide⟩
    have htexts : (modelBlock.findAll forward).map Match.text =
      ["model Post \x7b\n  author User\n\x7d".toList,
        "model User \x7b\n  name String\n\x7d".toList] := by decide
    rw [htexts]
    exact List.Perm.swap _ _ _
  refine ⟨?_, hdistinct, hrearranged, horder hdistinct backward hrearranged "Post"⟩
  have hfield : ((Schema.parse forward).models.find? "Post").bind (·.fields.find? "author") =
      some ⟨"author", "User", false, true⟩ := by decide
  obtain ⟨model, hmodel, hauthor⟩ := Option.bind_eq_some_iff.mp hfield
  obtain ⟨line, plain, hline, -, -, -, hflag⟩ := hflags "Post" model "author" _ hmodel hauthor
  have hsource : sourceLine? forward "Post" "author" = some "  author User".toList := by decide
  obtain rfl := Option.some.inj (hsource.symm.trans hline)
  exact ⟨model, _, hmodel, hauthor, hflag⟩

end PlanAudit.Prisma
