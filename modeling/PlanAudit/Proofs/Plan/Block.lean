import PlanAudit.Plan.Code
import PlanAudit.Proofs.Pattern.Captures
import PlanAudit.Proofs.Pattern.Positions

/-!
# Plans with fenced blocks

A plan is prose with fenced blocks in it.  One pattern reads the blocks with their fences, another
one what they hold, and nothing tells an opening fence from a closing one but the number of fences
in front of it.  A reader that took one fence too many or too few would therefore take prose for
code from there on.

Both patterns end a block at the first fence behind the opening one.  Nothing in front of the body
can be that fence: a tag holds no accents, and the line feed behind it stands in every block, so
that a first line of the body is never taken for a tag.

The code of a plan is collected twice: once as fenced blocks with their fences, and once as the
spans between two grave accents.  A fenced block is also such a span, from the last accent of one
fence to the first of the other.  Where a plan has one block and no other accents, its code is
therefore the block and, below it, what stands in the block.

## Main definitions

* `Fenced`: a fenced block as it is written
* `Document`: prose with fenced blocks in it
* `spans`: the spans of code in a plan
* `Block`: what stands around a piece of code in a plan
* `Block.plan`: the plan with the piece of code in its only block

## Main results

* `Document.finds`: what a search for blocks finds in a plan
* `Document.code_text`: the bodies and the blocks that are read are those that are written
* `Block.codeRegions_plan`: the code of a plan with one block
* `Block.joinedBlocks_plan`: what stands in the block, without the tag
-/

namespace PlanAudit.Plan

open Text Pattern

/-- Three grave accents. -/
def fenceChars : List Char := ['\x60', '\x60', '\x60']

/-! ## Blocks and plans as they are written -/

/-- A fenced block. -/
structure Fenced where
  /-- The language, or nothing. -/
  tag : List Char
  /-- What stands between the line of the tag and the closing fence. -/
  body : List Char
  tag_word : ∀ c ∈ tag, isWord c = true
  /-- From the body on, three accents stand first at the closing fence. -/
  body_closed : ∀ i < body.length, ¬ fenceChars <+: (body ++ fenceChars).drop i

/-- What stands between the fences. -/
def Fenced.inside (f : Fenced) : List Char := (f.tag ++ ['\n']) ++ f.body

/-- The block with its fences. -/
def Fenced.chars (f : Fenced) : List Char := fenceChars ++ (f.inside ++ fenceChars)

/-- Text without code. -/
structure Prose where
  /-- The characters. -/
  chars : List Char
  plain : '\x60' ∉ chars

/-- Prose with fenced blocks in it. -/
structure Document where
  /-- The blocks, each behind the prose in front of it. -/
  parts : List (Prose × Fenced)
  /-- The prose behind the last block. -/
  ending : Prose

namespace Document

/-- The plan. -/
def text (d : Document) : List Char :=
  d.parts.flatMap (fun p => p.1.chars ++ p.2.chars) ++ d.ending.chars

/-- The blocks of the plan. -/
def blocks (d : Document) : List Fenced := d.parts.map Prod.snd

end Document

/-! ## The first fence behind the opening one -/

theorem head_fence {s : List Char} (h : fenceChars <+: s) :
    ∃ x r, s = x :: r ∧ (x == '\x60') = true := by
  obtain ⟨r, rfl⟩ := h
  exact ⟨'\x60', _, rfl, rfl⟩

theorem not_accent {w : List Char} (hw : '\x60' ∉ w) : ∀ x ∈ w, (x == '\x60') = false :=
  fun _ hx => beq_eq_false_iff_ne.mpr fun heq => hw (heq ▸ hx)

/-- No fence starts in a text without accents. -/
theorem avoids_fence {w : List Char} (hw : '\x60' ∉ w) (t : List Char) :
    Avoids (fenceChars <+: ·) w t :=
  avoids_of_head (fun _ => head_fence) (not_accent hw)

/-- A body without accents is closed by the first fence behind it. -/
theorem body_closed_of_free {w : List Char} (hw : '\x60' ∉ w) :
    ∀ i < w.length, ¬ fenceChars <+: (w ++ fenceChars).drop i := by
  intro i hi
  rw [List.drop_append_of_le_length (Nat.le_of_lt hi)]
  refine avoids_fence hw fenceChars (w.take i) (w.drop i) (List.take_append_drop i w).symm ?_
  exact List.ne_nil_of_length_pos (by rw [List.length_drop]; omega)

namespace Fenced

variable (f : Fenced) (t : List Char)

theorem avoids_body : Avoids (fenceChars <+: ·) f.body (fenceChars ++ t) := by
  intro u s hsplit hs hfence
  have hlength : f.body.length = u.length + s.length := by rw [hsplit, List.length_append]
  have hpos := List.length_pos_of_ne_nil hs
  refine f.body_closed u.length (by omega) ?_
  -- A fence is no longer than the rest of the body with the closing fence.
  rw [hsplit, List.append_assoc, List.drop_left]
  rw [← List.append_assoc] at hfence
  refine List.prefix_of_prefix_length_le hfence (List.prefix_append _ t) ?_
  rw [List.length_append]
  exact Nat.le_add_left _ _

/-- **Between the fences of a block no fence starts.** -/
theorem avoids_inside : Avoids (fenceChars <+: ·) f.inside (fenceChars ++ t) := by
  refine Avoids.append (avoids_fence (fun h => ?_) _) (f.avoids_body t)
  rcases List.mem_append.mp h with h | h
  · exact absurd (f.tag_word _ h) (by decide)
  · exact absurd h (by decide)

/-! ## One block -/

theorem exists_matchHere_fencedBlock (before : Option Char) (offset : Nat) :
    ∃ m, fencedBlock.matchHere before offset (f.chars ++ t) = some m ∧
      m.stop = offset + f.chars.length ∧ m.text = f.chars := by
  let start : Cursor := ⟨before, offset, f.chars ++ t, []⟩
  have hrun : fencedBlock.matchHere before offset start.rest =
      fence.run start fun e => (starLazy anything).run e fun g => fence.run g fun h =>
        some ⟨offset, h.offset, start.rest, h.captures⟩ := rfl
  have hopen : start.rest = fenceChars ++ (f.inside ++ (fenceChars ++ t)) := by
    simp [start, chars, List.append_assoc]
  have hstop : offset + 3 + f.inside.length + 3 = offset + f.chars.length := by
    simp only [chars, fenceChars, List.length_append, List.length_cons, List.length_nil]
    omega
  refine ⟨_, hrun.trans (takes_lit _ _ _ _ _ hopen (run_starLazy_anything (w := f.inside) rfl
    (fun u v hsplit hv => run_lit_eq_none _ (f.avoids_inside t u v hsplit hv))
    (takes_lit _ _ _ _ _ rfl rfl))), hstop, ?_⟩
  change start.rest.take (offset + 3 + f.inside.length + 3 - offset) = f.chars
  rw [hstop, Nat.add_sub_cancel_left]
  exact List.take_left

/-- The tag and the line feed behind it are taken, and nothing of the body. -/
theorem takes_tag : (opt (star word ++ char '\n')).Takes (f.tag ++ ['\n']) t :=
  Takes.opt ((takes_loop_one f.tag_word (Nat.zero_le _) (forall_head?_cons (by decide))).append
    (takes_char '\n')) (by simp)

theorem exists_matchHere_fencedBody (before : Option Char) (offset : Nat) :
    ∃ m, fencedBody.matchHere before offset (f.chars ++ t) = some m ∧
      m.stop = offset + f.chars.length ∧ m.group 1 = f.body := by
  let start : Cursor := ⟨before, offset, f.chars ++ t, []⟩
  have hrun : fencedBody.matchHere before offset start.rest =
      fence.run start fun e => (opt (star word ++ char '\n')).run e fun g =>
        (starLazy anything).run g fun h => fence.run (h.record 1 g) fun k =>
          some ⟨offset, k.offset, start.rest, k.captures⟩ := rfl
  have hopen : start.rest =
      fenceChars ++ ((f.tag ++ ['\n']) ++ (f.body ++ (fenceChars ++ t))) := by
    simp [start, chars, inside]
  have hstop : offset + 3 + (f.tag ++ ['\n']).length + f.body.length + 3 =
      offset + f.chars.length := by
    simp only [chars, inside, fenceChars, List.length_append, List.length_cons, List.length_nil]
    omega
  refine ⟨_, hrun.trans (takes_lit _ _ _ _ _ hopen (f.takes_tag _ _ _ _ _ rfl
    (run_starLazy_anything (w := f.body) rfl
      (fun u v hsplit hv => run_lit_eq_none _ (f.avoids_body t u v hsplit hv))
      (takes_lit _ _ _ _ _ rfl rfl)))), hstop, Capture.text_eq⟩

end Fenced

/-! ## The blocks of a plan -/

theorem startsWith_fencedBlock : StartsWith (· == '\x60') fencedBlock :=
  ((startsWith_char (by decide)).append _).append _ |>.append _

theorem startsWith_fencedBody : StartsWith (· == '\x60') fencedBody :=
  (((startsWith_char (by decide)).append _).append _).append _ |>.append _

namespace Document

/-- **What a search for blocks finds in a plan**: in prose it finds nothing, and behind a block it
goes on with the prose behind it. -/
theorem finds {α : Type} {p : Pattern} {read : Match → α} {value : Fenced → α}
    (hstart : StartsWith (· == '\x60') p)
    (hblock : ∀ (f : Fenced) (t : List Char) (before : Option Char) (offset : Nat),
      ∃ m, p.matchHere before offset (f.chars ++ t) = some m ∧
        m.stop = offset + f.chars.length ∧ read m = value f) (d : Document) :
    p.Finds read d.text (d.blocks.map value) := by
  obtain ⟨parts, ending⟩ := d
  induction parts with
  | nil => exact hstart.finds_nil (not_accent ending.plain)
  | cons part parts ih =>
    obtain ⟨prose, f⟩ := part
    have htext : text ⟨(prose, f) :: parts, ending⟩ =
        prose.chars ++ (f.chars ++ text ⟨parts, ending⟩) := by
      simp [text, List.append_assoc]
    rw [htext]
    refine Finds.quiet (Finds.cons ih ?_ (hblock f _)) fun _ =>
      hstart.quiet (not_accent prose.plain)
    simp [Fenced.chars, fenceChars]

theorem codeBlocks_text (d : Document) : codeBlocks d.text = d.blocks.map Fenced.body :=
  d.finds startsWith_fencedBody Fenced.exists_matchHere_fencedBody none 0

theorem fencedBlock_text (d : Document) :
    (fencedBlock.findAll d.text).map Match.text = d.blocks.map Fenced.chars :=
  d.finds startsWith_fencedBlock Fenced.exists_matchHere_fencedBlock none 0

end Document

/-- The spans of code in a plan, those in its blocks as well. -/
def spans (plan : List Char) : List (List Char) :=
  (inlineCode.findAll plan).map (Match.group · 1)

theorem accent_notMem_span {plan s : List Char} (hs : s ∈ spans plan) : '\x60' ∉ s := by
  have hrecords : inlineCode.RecordsOnly 1 fun w => '\x60' ∉ w := by
    refine ⟨⟨trivial, trivial, fun _ c d w hd hw => ?_⟩, trivial⟩
    obtain ⟨v, hv, -, hfree⟩ := exists_reads_of_mem_plus hd
    rw [← hw.take_eq, hv.take_eq]
    exact fun h => by simpa using hfree _ h
  obtain ⟨m, hm, rfl⟩ := List.mem_map.mp hs
  rcases group_of_mem_findAll hrecords hm with hnil | hfree
  · rw [hnil]
    exact List.not_mem_nil
  · exact hfree

/-- **The code of a plan is read back as it is written.**  The bodies that are read are those of the
blocks, in their order.  The regions of code are the blocks with their fences, in their order, and
behind them the spans between accents, none of which is a block. -/
theorem Document.code_text (d : Document) :
    codeBlocks d.text = d.blocks.map Fenced.body ∧
      codeRegions d.text = ['\n'].intercalate (d.blocks.map Fenced.chars ++ spans d.text) ∧
        ∀ s ∈ spans d.text, '\x60' ∉ s := by
  refine ⟨d.codeBlocks_text, ?_, fun _ => accent_notMem_span⟩
  rw [codeRegions, d.fencedBlock_text]
  rfl

example : codeBlocks
      "\x60\x60\x60\nts\nfoo()\n\x60\x60\x60\n\x60\x60\x60ts\nbar()\n\x60\x60\x60".toList =
    ["ts\nfoo()\n".toList, "bar()\n".toList] := by
  decide

/-! ## A plan with one block -/

/-- What stands around a piece of code in a plan. -/
structure Block where
  /-- What stands in front of the block. -/
  before : List Char
  /-- The language of the block. -/
  tag : List Char
  /-- What stands behind the block. -/
  after : List Char
  before_plain : '\x60' ∉ before
  tag_word : ∀ c ∈ tag, isWord c = true
  after_plain : '\x60' ∉ after

namespace Block

variable (b : Block) {code : List Char}

/-- What stands between the fences. -/
def inside (code : List Char) : List Char := b.tag ++ '\n' :: (code ++ ['\n'])

/-- The plan. -/
def plan (code : List Char) : List Char :=
  b.before ++ (fenceChars ++ (b.inside code ++ (fenceChars ++ b.after)))

theorem not_mem_inside (hcode : '\x60' ∉ code) : '\x60' ∉ b.inside code := by
  have htag : '\x60' ∉ b.tag := fun h => absurd (b.tag_word _ h) (by decide)
  simp [inside, htag, hcode]

theorem inside_ne_nil : b.inside code ≠ [] := by simp [inside]

/-! ## The fenced block -/

/-- The block as it is written. -/
def fenced (hcode : '\x60' ∉ code) : Fenced where
  tag := b.tag
  body := code ++ ['\n']
  tag_word := b.tag_word
  body_closed := body_closed_of_free (by simp [hcode])

/-- The plan as prose around the block. -/
def document (hcode : '\x60' ∉ code) : Document where
  parts := [(⟨b.before, b.before_plain⟩, b.fenced hcode)]
  ending := ⟨b.after, b.after_plain⟩

theorem chars_fenced (hcode : '\x60' ∉ code) :
    (b.fenced hcode).chars = fenceChars ++ (b.inside code ++ fenceChars) := by
  simp [fenced, Fenced.chars, Fenced.inside, inside]

theorem text_document (hcode : '\x60' ∉ code) : (b.document hcode).text = b.plan code := by
  simp [document, Document.text, chars_fenced, plan]

/-- **The body of the block** is the piece of code and the line feed behind it. -/
theorem joinedBlocks_plan (hcode : '\x60' ∉ code) :
    joinedBlocks (b.plan code) = code ++ ['\n'] := by
  rw [joinedBlocks, ← b.text_document hcode, Document.codeBlocks_text]
  simp [document, Document.blocks, fenced]

/-! ## The span -/

theorem startsWith_inlineCode : StartsWith (· == '\x60') inlineCode :=
  ((startsWith_char (by decide)).append _).append _

/-- A span starts with an accent and ends at the next one, which does not follow at once. -/
theorem exists_of_mem_inlineCode {c d : Cursor} (hd : d ∈ inlineCode.outcomes c) :
    ∃ w, c.rest = '\x60' :: (w ++ '\x60' :: d.rest) ∧ w ≠ [] ∧ '\x60' ∉ w := by
  obtain ⟨e, hd, hclose⟩ := mem_outcomes_append.mp hd
  obtain ⟨f, hopen, hspan⟩ := mem_outcomes_append.mp hd
  obtain ⟨g, hg, rfl⟩ := mem_outcomes_capture.mp hspan
  obtain ⟨w, hw, hne, hchars⟩ := exists_reads_of_mem_plus hg
  refine ⟨w, ?_, hne, fun h => by simpa using hchars _ h⟩
  rw [(reads_of_mem_char hopen).rest_eq, hw.rest_eq]
  exact congrArg (fun r => ['\x60'] ++ (w ++ r)) (reads_of_mem_char hclose).rest_eq

theorem exists_matchHere_inlineCode {w t : List Char} (hw : '\x60' ∉ w) (hne : w ≠ [])
    (before : Option Char) (offset : Nat) :
    ∃ m, inlineCode.matchHere before offset (('\x60' :: (w ++ ['\x60'])) ++ t) = some m ∧
      m.stop = offset + ('\x60' :: (w ++ ['\x60'])).length ∧ m.group 1 = w := by
  let start : Cursor := ⟨before, offset, ('\x60' :: (w ++ ['\x60'])) ++ t, []⟩
  have hrun : inlineCode.matchHere before offset start.rest =
      (char '\x60').run start fun e => (plus (noneOf "\x60")).run e fun f =>
        (char '\x60').run (f.record 1 e) fun g =>
          some ⟨offset, g.offset, start.rest, g.captures⟩ := rfl
  have hspan : (plus (noneOf "\x60")).Takes w (['\x60'] ++ t) := by
    refine takes_loop_one (fun c hc => ?_) (List.length_pos_of_ne_nil hne)
      (forall_head?_cons (by decide))
    have hc : c ≠ '\x60' := fun heq => hw (heq ▸ hc)
    simpa using hc
  have hopen : start.rest = ['\x60'] ++ (w ++ (['\x60'] ++ t)) := by simp [start]
  refine ⟨_, hrun.trans (takes_char _ _ _ _ _ hopen (hspan _ _ _ _ rfl
    (takes_char _ _ _ _ _ rfl rfl))), ?_, ?_⟩
  · simp [Cursor.record, Nat.add_assoc, start]
  · exact Capture.text_eq

/-- Between two accents with nothing between them no span starts. -/
theorem matchHere_accents (before : Option Char) (offset : Nat) (t : List Char) :
    inlineCode.matchHere before offset ('\x60' :: '\x60' :: t) = none := by
  by_contra h
  obtain ⟨m, hm⟩ := Option.ne_none_iff_exists'.mp h
  obtain ⟨d, hd, -⟩ := exists_outcome_of_matchHere hm
  obtain ⟨w, hrest, hne, hw⟩ := exists_of_mem_inlineCode hd
  obtain ⟨x, w, rfl⟩ := List.exists_cons_of_ne_nil hne
  obtain ⟨-, hrest⟩ := List.cons.inj hrest
  obtain ⟨rfl, -⟩ := List.cons.inj hrest
  exact hw List.mem_cons_self

/-- Behind the last accent of the plan no span ends. -/
theorem matchHere_lastAccent (before : Option Char) (offset : Nat) :
    inlineCode.matchHere before offset ('\x60' :: b.after) = none := by
  by_contra h
  obtain ⟨m, hm⟩ := Option.ne_none_iff_exists'.mp h
  obtain ⟨d, hd, -⟩ := exists_outcome_of_matchHere hm
  obtain ⟨w, hrest, -, -⟩ := exists_of_mem_inlineCode hd
  obtain ⟨-, hrest⟩ := List.cons.inj hrest
  exact b.after_plain (by simp [hrest])

theorem finds_inlineCode_after :
    inlineCode.Finds (Match.group · 1) (['\x60', '\x60'] ++ b.after) [] := by
  refine Finds.quiet (startsWith_inlineCode.finds_nil (not_accent b.after_plain)) fun _ => ?_
  exact ⟨fun _ => matchHere_accents _ _ _, fun _ => b.matchHere_lastAccent _ _, trivial⟩

theorem finds_inlineCode (hcode : '\x60' ∉ code) :
    inlineCode.Finds (Match.group · 1) (b.plan code) [b.inside code] := by
  have hplan : b.plan code = b.before ++ (['\x60', '\x60'] ++
      (('\x60' :: (b.inside code ++ ['\x60'])) ++ (['\x60', '\x60'] ++ b.after))) := by
    simp [plan, fenceChars]
  have hfence : ∀ before, inlineCode.Quiet before ['\x60', '\x60']
      (('\x60' :: (b.inside code ++ ['\x60'])) ++ (['\x60', '\x60'] ++ b.after)) := fun _ =>
    ⟨fun _ => matchHere_accents _ _ _, fun _ => matchHere_accents _ _ _, trivial⟩
  rw [hplan]
  refine Finds.quiet (Finds.quiet ?_ hfence) fun _ =>
    startsWith_inlineCode.quiet (not_accent b.before_plain)
  exact Finds.cons b.finds_inlineCode_after (List.cons_ne_nil _ _)
    (exists_matchHere_inlineCode (b.not_mem_inside hcode) b.inside_ne_nil)

/-- **The code of the plan** is the block and, below it, what stands in the block. -/
theorem codeRegions_plan (hcode : '\x60' ∉ code) :
    codeRegions (b.plan code) =
      fenceChars ++ (b.inside code ++ (fenceChars ++ '\n' :: b.inside code)) := by
  have hblocks : (fencedBlock.findAll (b.plan code)).map Match.text =
      [fenceChars ++ (b.inside code ++ fenceChars)] := by
    rw [← b.text_document hcode, Document.fencedBlock_text, ← b.chars_fenced hcode]
    rfl
  have hspans : (inlineCode.findAll (b.plan code)).map (Match.group · 1) = [b.inside code] :=
    b.finds_inlineCode hcode none 0
  rw [codeRegions, hblocks, hspans]
  simp [List.append_assoc]

end Block

end PlanAudit.Plan
