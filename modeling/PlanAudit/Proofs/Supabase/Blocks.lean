import Mathlib.Data.Nat.Find
import PlanAudit.Proofs.Pattern.Leftmost
import PlanAudit.Proofs.Pattern.Positions
import PlanAudit.Proofs.Text.Brackets
import PlanAudit.Supabase.Schema

/-!
# The blocks of a section

The blocks of a section are looked for in turns.  A turn tries the first head that is left, and
there are three things that it can do.  A block with a name that is to be skipped and one that is
not closed are passed over, and the search goes on behind the head, so that the blocks inside are
seen.  Any other block is taken, and the search goes on behind the brace that closes it.

A head depends on nothing in front of it.  A turn is therefore told by the text that is left, and
not by a position in a text, and every turn leaves less of it.

## Main definitions

* `Head`, `Entry skip`: the head of a block, and a block with a name that is not to be skipped
* `StartsBlock`, `FirstHead`: a text that starts with a head, and where in a text the first stands
* `Turn skip text found after`: what is found in one turn, and the text that is left behind it
* `Scan skip text found`: what is found in all turns
* `Layout skip`: blocks with any text around them, and `Section skip`, with white space around them

## Main results

* `wellFounded_turn`: turns do not follow each other for ever
* `scan_iff`: what is found in all turns are the blocks of the section
* `blocks_turn_by_turn`: every text is laid out as the blocks that are found in it, and in a section
  these are the blocks that are written
-/

namespace PlanAudit.Supabase

open Text Pattern

/-! ## Heads -/

/-- The head of a block: a name, a colon, white space and a brace. -/
structure Head where
  /-- The name. -/
  name : List Char
  /-- What stands between the colon and the brace. -/
  gap : List Char
  name_ne_nil : name ≠ []
  name_word : ∀ c ∈ name, isWord c = true
  gap_blank : ∀ c ∈ gap, isBlank c = true

namespace Head

variable (h : Head)

def chars : List Char := h.name ++ ':' :: (h.gap ++ ['{'])

/-- The name as a string. -/
def title : String := String.ofList h.name

theorem exists_chars_eq : ∃ x r, h.chars = x :: r ∧ isWord x = true := by
  obtain ⟨x, r, hx⟩ := List.exists_cons_of_ne_nil h.name_ne_nil
  exact ⟨x, _, by rw [chars, hx]; rfl, h.name_word x (by rw [hx]; exact List.mem_cons_self)⟩

/-- A head is found where it stands, whatever stands around it. -/
theorem exists_matchHere (before : Option Char) (offset : Nat) (t : List Char) :
    ∃ m, blockHead.matchHere before offset (h.chars ++ t) = some m ∧
      m.stop = offset + h.chars.length ∧ m.name 1 = h.title := by
  have htext : h.chars ++ t = h.name ++ ([':'] ++ h.gap ++ ['{'] ++ t) := by simp [chars]
  rw [htext]
  let start : Cursor := ⟨before, offset, h.name ++ ([':'] ++ h.gap ++ ['{'] ++ t), []⟩
  have hrun : blockHead.matchHere before offset start.rest =
      Pattern.name.run start fun e => (char ':' ++ blanks ++ char '{').run (e.record 1 start)
        fun c => some ⟨offset, c.offset, start.rest, c.captures⟩ := rfl
  -- The colon ends the name and the brace the white space, so that both are taken as a whole.
  have hname : Pattern.name.Takes h.name ([':'] ++ h.gap ++ ['{'] ++ t) :=
    takes_name h.name_ne_nil h.name_word (forall_head?_cons (by decide))
  have hbrace : (char ':' ++ blanks ++ char '{').Takes ([':'] ++ h.gap ++ ['{']) t :=
    ((takes_char ':').append (takes_blanks h.gap_blank (forall_head?_cons (by decide)))).append
      (takes_char '{')
  refine ⟨_, hrun.trans (hname _ start _ _ rfl (hbrace _ _ _ _ rfl rfl)), ?_, ?_⟩
  · simp only [Cursor.record, Cursor.behind_offset, chars, start, List.length_append,
      List.length_cons, List.length_nil]
    omega
  · exact congrArg String.ofList Capture.text_eq

end Head

/-- The text starts with the head of a block. -/
def StartsBlock (s : List Char) : Prop := ∃ (h : Head) (t : List Char), s = h.chars ++ t

theorem StartsBlock.exists_word {s : List Char} (hs : StartsBlock s) :
    ∃ x r, s = x :: r ∧ isWord x = true := by
  obtain ⟨h, t, rfl⟩ := hs
  obtain ⟨x, r, hx, hword⟩ := h.exists_chars_eq
  exact ⟨x, r ++ t, by rw [hx]; rfl, hword⟩

/-- What stands behind a name that opens a block. -/
theorem exists_gap_of_mem_outcomes {p : Pattern} {c d : Cursor}
    (hd : d ∈ (p ++ char ':' ++ blanks ++ char '{').outcomes c) : ∃ e ∈ p.outcomes c,
      ∃ gap, (∀ x ∈ gap, isBlank x = true) ∧ e.rest = ':' :: (gap ++ '{' :: d.rest) := by
  obtain ⟨c₂, hd, hbrace⟩ := mem_outcomes_append.mp hd
  obtain ⟨c₁, hd, hgap⟩ := mem_outcomes_append.mp hd
  obtain ⟨e, he, hcolon⟩ := mem_outcomes_append.mp hd
  obtain ⟨gap, hgap, hblank⟩ := exists_reads_of_mem_blanks hgap
  refine ⟨e, he, gap, hblank, ?_⟩
  rw [(reads_of_mem_char hcolon).rest_eq, hgap.rest_eq, (reads_of_mem_char hbrace).rest_eq]
  rfl

/-- Where the pattern matches a head stands. -/
theorem begins_blockHead : Begins StartsBlock blockHead := by
  intro c d hd
  obtain ⟨e, hcapture, gap, hblank, hbehind⟩ := exists_gap_of_mem_outcomes hd
  obtain ⟨c₁, hread, rfl⟩ := mem_outcomes_capture.mp hcapture
  obtain ⟨name, hname, hne, hword⟩ := exists_reads_of_mem_plus hread
  refine ⟨⟨name, gap, hne, hword, hblank⟩, d.rest, ?_⟩
  rw [hname.rest_eq]
  exact (congrArg (name ++ ·) hbehind).trans (by simp [Head.chars])

/-! ## The first head -/

/-- Nowhere in the text a head starts. -/
def Headless (text : List Char) : Prop := ∀ u s, text = u ++ s → ¬ StartsBlock s

/-- In the text a head stands between `front` and `behind`, and none starts in front of it. -/
structure FirstHead (text front : List Char) (h : Head) (behind : List Char) : Prop where
  split : text = front ++ (h.chars ++ behind)
  first : Avoids StartsBlock front (h.chars ++ behind)

/-- A text has no head, or a first one. -/
theorem headless_or_exists_firstHead (text : List Char) :
    Headless text ∨ ∃ front h behind, FirstHead text front h behind := by
  classical
  by_cases hany : ∃ n u s, u.length = n ∧ text = u ++ s ∧ StartsBlock s
  · obtain ⟨front, s, hfront, hsplit, h, behind, rfl⟩ := Nat.find_spec hany
    refine Or.inr ⟨front, h, behind, hsplit, fun u s hu hs hstarts => ?_⟩
    have hleast : front.length ≤ u.length := by
      rw [hfront]
      exact Nat.find_min' hany ⟨u, _, rfl, by rw [hsplit, hu, List.append_assoc], hstarts⟩
    have hpos := List.length_pos_of_ne_nil hs
    rw [hu, List.length_append] at hleast
    omega
  · exact Or.inl fun u s hsplit hs => hany ⟨_, u, s, rfl, hsplit, hs⟩

/-- In white space no head starts. -/
theorem avoids_blank {w : List Char} (hw : ∀ c ∈ w, isBlank c = true) (t : List Char) :
    Avoids StartsBlock w t :=
  avoids_of_head (fun _ => StartsBlock.exists_word) fun c hc => isWord_eq_false_of_isBlank (hw c hc)

theorem headless_of_blank {text : List Char} (htext : ∀ c ∈ text, isBlank c = true) :
    Headless text := by
  intro u s hsplit hs
  obtain ⟨x, r, rfl, -⟩ := hs.exists_word
  exact avoids_blank htext [] u (x :: r) hsplit (List.cons_ne_nil x r) (by simpa using hs)

theorem searchFrom_of_headless {text : List Char} (h : Headless text) (u : List Char) :
    blockHead.searchFrom (u ++ text) u.length = none := by
  rw [searchFrom, searchScan_length]
  by_contra hfound
  obtain ⟨m, hm⟩ := Option.ne_none_iff_exists'.mp hfound
  obtain ⟨v, s, hsplit, -, hm, -⟩ := exists_first_of_searchScan hm
  obtain ⟨d, hd, -⟩ := exists_outcome_of_matchHere hm
  exact h v s hsplit (begins_blockHead _ d hd)

/-- **A search finds the first head.** -/
theorem FirstHead.exists_searchFrom {text front behind : List Char} {h : Head}
    (hfirst : FirstHead text front h behind) (u : List Char) :
    ∃ m, blockHead.searchFrom (u ++ text) u.length = some m ∧
      m.stop = (u ++ (front ++ h.chars)).length ∧ m.name 1 = h.title := by
  obtain ⟨m, hm, hstop, hname⟩ := h.exists_matchHere
    (front.getLast?.or (u.getLast?.or none)) (0 + u.length + front.length) behind
  refine ⟨m, ?_, ?_, hname⟩
  · rw [searchFrom, searchScan_length, hfirst.split,
      searchScan_append_of_quiet (begins_blockHead.quiet hfirst.first)]
    exact searchScan_of_matchHere hm
  · rw [hstop]
    simp only [List.length_append]
    omega

/-! ## Turns -/

variable {skip : List String}

/-- A round of the search tries the first head. -/
theorem FirstHead.blocksFrom {text front behind : List Char} {h : Head}
    (hfirst : FirstHead text front h behind) (u : List Char) (fuel : Nat) :
    Supabase.blocksFrom (u ++ text) skip (fuel + 1) u.length =
      let inside := u ++ (front ++ h.chars)
      if h.title ∈ skip then Supabase.blocksFrom (u ++ text) skip fuel inside.length
      else match balancedSlice? (inside ++ behind) inside.length .curly with
        | none => Supabase.blocksFrom (u ++ text) skip fuel inside.length
        | some s => ⟨h.title, s.body⟩ :: Supabase.blocksFrom (u ++ text) skip fuel s.stop := by
  obtain ⟨m, hm, hstop, hname⟩ := hfirst.exists_searchFrom u
  have htext : u ++ text = (u ++ (front ++ h.chars)) ++ behind := by
    rw [hfirst.split]
    simp only [List.append_assoc]
  rw [Supabase.blocksFrom, hm]
  dsimp only
  rw [hname, hstop, ← htext]
  by_cases hskip : h.title ∈ skip
  · exact (if_pos (List.contains_iff_mem.mpr hskip)).trans (if_pos hskip).symm
  · exact (if_neg (mt List.contains_iff_mem.mp hskip)).trans (if_neg hskip).symm

/-- A block with a name that is not to be skipped. -/
structure Entry (skip : List String) where
  /-- Its head. -/
  head : Head
  /-- What stands between its braces. -/
  body : List Char
  kept : head.title ∉ skip
  body_matched : Matched .curly body

namespace Entry

variable (e : Entry skip)

/-- The block with its head and the brace that closes it. -/
def chars : List Char := e.head.chars ++ (e.body ++ ['}'])

def block : Block := ⟨e.head.title, e.body⟩

end Entry

/-- No brace in the text closes the one in front of it. -/
def Unclosed (text : List Char) : Prop :=
  ∀ body t, Matched .curly body → text ≠ body ++ '}' :: t

theorem Unclosed.balancedSlice?_eq_none {text : List Char} (h : Unclosed text) (u : List Char) :
    balancedSlice? (u ++ text) u.length .curly = none := by
  refine Text.balancedSlice?_eq_none fun i hi => ?_
  obtain ⟨body, t, hsplit, hbody⟩ := exists_matched_of_closesAt hi
  rw [List.drop_left] at hsplit
  exact h body t hbody hsplit

/-- What is found in one turn, and the text that is left behind it. -/
inductive Turn (skip : List String) (text : List Char) : Option Block → List Char → Prop
  /-- A block that is to be skipped is passed over. -/
  | skipped {front after : List Char} {h : Head} (first : FirstHead text front h after)
      (hskip : h.title ∈ skip) : Turn skip text none after
  /-- A block that is not closed is passed over. -/
  | unclosed {front after : List Char} {h : Head} (first : FirstHead text front h after)
      (kept : h.title ∉ skip) (hopen : Unclosed after) : Turn skip text none after
  /-- Any other block is found, and the turn goes on behind its closing brace. -/
  | found {front after : List Char} {e : Entry skip}
      (first : FirstHead text front e.head (e.body ++ '}' :: after)) :
      Turn skip text (some e.block) after

/-- What is found in all turns. -/
inductive Scan (skip : List String) : List Char → List Block → Prop
  | done {text : List Char} (h : Headless text) : Scan skip text []
  | turn {text after : List Char} {b : Option Block} {bs : List Block} (h : Turn skip text b after)
      (rest : Scan skip after bs) : Scan skip text (b.toList ++ bs)

theorem unclosed_or_exists (text : List Char) :
    Unclosed text ∨ ∃ body t, Matched .curly body ∧ text = body ++ '}' :: t := by
  by_cases h : ∃ body t, Matched .curly body ∧ text = body ++ '}' :: t
  · exact Or.inr h
  · exact Or.inl fun body t hbody hsplit => h ⟨body, t, hbody, hsplit⟩

/-- Where a head is left there is a turn. -/
theorem headless_or_exists_turn (skip : List String) (text : List Char) :
    Headless text ∨ ∃ b after, Turn skip text b after := by
  rcases headless_or_exists_firstHead text with hnone | ⟨front, h, behind, hfirst⟩
  · exact Or.inl hnone
  · right
    by_cases hskip : h.title ∈ skip
    · exact ⟨none, behind, .skipped hfirst hskip⟩
    · rcases unclosed_or_exists behind with hopen | ⟨body, after, hbody, rfl⟩
      · exact ⟨none, behind, .unclosed hfirst hskip hopen⟩
      · exact ⟨_, after, .found (e := ⟨h, body, hskip, hbody⟩) hfirst⟩

namespace Turn

variable {text after : List Char} {b : Option Block}

/-- **What a turn goes through**: text in which nothing is found, or text and a block behind it. -/
theorem cases_text (h : Turn skip text b after) :
    (b = none ∧ ∃ v, v ≠ [] ∧ text = v ++ after) ∨
      ∃ (v : List Char) (e : Entry skip), b = some e.block ∧ text = v ++ (e.chars ++ after) := by
  have hpassed {front : List Char} {head : Head} (first : FirstHead text front head after) :
      ∃ v, v ≠ [] ∧ text = v ++ after := by
    obtain ⟨x, r, hx, -⟩ := head.exists_chars_eq
    exact ⟨front ++ head.chars, by simp [hx], by rw [first.split, List.append_assoc]⟩
  cases h with
  | skipped first hskip => exact Or.inl ⟨rfl, hpassed first⟩
  | unclosed first kept hopen => exact Or.inl ⟨rfl, hpassed first⟩
  | @found front _ e first =>
    exact Or.inr ⟨front, e, rfl, by rw [first.split]; simp [Entry.chars]⟩

/-- **A turn leaves less text.** -/
theorem length_lt (h : Turn skip text b after) : after.length < text.length := by
  rcases h.cases_text with ⟨-, v, hne, rfl⟩ | ⟨v, e, -, rfl⟩
  · have hpos := List.length_pos_of_ne_nil hne
    rw [List.length_append]
    omega
  · simp only [Entry.chars, List.length_append, List.length_cons, List.length_nil]
    omega

/-- **A turn is one round of the search**, wherever the text stands. -/
theorem blocksFrom (h : Turn skip text b after) (u : List Char) (fuel : Nat) :
    ∃ v, text = v ++ after ∧ Supabase.blocksFrom (u ++ text) skip (fuel + 1) u.length =
      b.toList ++ Supabase.blocksFrom (u ++ text) skip fuel (u ++ v).length := by
  cases h with
  | @skipped front _ head first hskip =>
    refine ⟨front ++ head.chars, by rw [first.split, List.append_assoc], ?_⟩
    rw [first.blocksFrom, if_pos hskip]
    rfl
  | @unclosed front _ head first kept hopen =>
    refine ⟨front ++ head.chars, by rw [first.split, List.append_assoc], ?_⟩
    rw [first.blocksFrom, if_neg kept, hopen.balancedSlice?_eq_none]
    rfl
  | @found front _ e first =>
    refine ⟨front ++ e.chars, by rw [first.split]; simp [Entry.chars], ?_⟩
    have hstop : (u ++ (front ++ e.head.chars)).length + e.body.length + 1 =
        (u ++ (front ++ e.chars)).length := by
      simp only [Entry.chars, List.length_append, List.length_cons, List.length_nil]
      omega
    have hslice : balancedSlice? ((u ++ (front ++ e.head.chars)) ++ (e.body ++ '}' :: after))
        (u ++ (front ++ e.head.chars)).length .curly =
          some ⟨e.body, (u ++ (front ++ e.chars)).length⟩ := by
      rw [← hstop]
      exact balancedSlice?_of_balanced e.body_matched.balanced _ after
    rw [first.blocksFrom, if_neg e.kept, hslice]
    rfl

end Turn

/-- **Turns do not follow each other for ever.** -/
theorem wellFounded_turn (skip : List String) :
    WellFounded fun after text => ∃ b, Turn skip text b after :=
  Subrelation.wf (fun ⟨_, h⟩ => h.length_lt) (measure List.length).wf

/-! ## All turns -/

namespace Scan

variable {text : List Char} {bs : List Block}

/-- The turns come to an end on every text. -/
theorem exists_scan (skip : List String) (text : List Char) : ∃ bs, Scan skip text bs := by
  induction text using (wellFounded_turn skip).induction with
  | _ text ih =>
    rcases headless_or_exists_turn skip text with hnone | ⟨b, after, hturn⟩
    · exact ⟨[], .done hnone⟩
    · obtain ⟨bs, hbs⟩ := ih after ⟨b, hturn⟩
      exact ⟨_, .turn hturn hbs⟩

/-- Where more rounds are allowed than characters are left, the search finds what is found in all
turns. -/
theorem blocksFrom (h : Scan skip text bs) {fuel : Nat} (hfuel : text.length < fuel)
    (u : List Char) : Supabase.blocksFrom (u ++ text) skip fuel u.length = bs := by
  -- Induction along the turns: each of them takes one round and leaves less text.
  induction h generalizing fuel u with
  | done hnone =>
    obtain ⟨fuel, rfl⟩ : ∃ f, fuel = f + 1 := ⟨fuel - 1, by omega⟩
    rw [Supabase.blocksFrom, searchFrom_of_headless hnone]
  | turn hturn _ ih =>
    obtain ⟨fuel, rfl⟩ : ∃ f, fuel = f + 1 := ⟨fuel - 1, by omega⟩
    have hlength := hturn.length_lt
    obtain ⟨v, rfl, hround⟩ := hturn.blocksFrom u fuel
    rw [hround, ← List.append_assoc, ih (by omega)]

theorem blocks_eq (h : Scan skip text bs) : blocks text skip = bs :=
  h.blocksFrom (Nat.lt_succ_self _) []

end Scan

/-- **What is found in all turns are the blocks.** -/
theorem scan_iff {text : List Char} {bs : List Block} :
    Scan skip text bs ↔ blocks text skip = bs := by
  refine ⟨Scan.blocks_eq, ?_⟩
  rintro rfl
  obtain ⟨bs, hbs⟩ := Scan.exists_scan skip text
  rwa [hbs.blocks_eq]

/-! ## Blocks with text around them -/

/-- Blocks with text around them. -/
structure Layout (skip : List String) where
  /-- The blocks, each behind the text in front of it. -/
  parts : List (List Char × Entry skip)
  /-- The text behind the last block. -/
  rest : List Char

namespace Layout

def text (l : Layout skip) : List Char := l.parts.flatMap (fun p => p.1 ++ p.2.chars) ++ l.rest

def blocks (l : Layout skip) : List Block := l.parts.map fun p => p.2.block

/-- Text in front of everything. -/
theorem exists_append (v : List Char) (l : Layout skip) :
    ∃ l' : Layout skip, l'.text = v ++ l.text ∧ l'.blocks = l.blocks := by
  obtain ⟨parts, rest⟩ := l
  cases parts with
  | nil => exact ⟨⟨[], v ++ rest⟩, rfl, rfl⟩
  | cons p parts => exact ⟨⟨(v ++ p.1, p.2) :: parts, rest⟩, by simp [text], rfl⟩

end Layout

/-- The text is laid out as the blocks that are found. -/
theorem Scan.exists_layout {text : List Char} {bs : List Block} (h : Scan skip text bs) :
    ∃ l : Layout skip, l.text = text ∧ l.blocks = bs := by
  -- What a turn passes over belongs to the text in front of the block that is found next.
  induction h with
  | @done text _ => exact ⟨⟨[], text⟩, rfl, rfl⟩
  | turn hturn _ ih =>
    obtain ⟨l, rfl, rfl⟩ := ih
    rcases hturn.cases_text with ⟨rfl, v, -, rfl⟩ | ⟨v, e, rfl, rfl⟩
    · exact l.exists_append v
    · exact ⟨⟨(v, e) :: l.parts, l.rest⟩, by simp [Layout.text], rfl⟩

/-! ## Sections as they are written -/

/-- Blocks with nothing but white space around them. -/
structure Section (skip : List String) extends Layout skip where
  front_blank : ∀ p ∈ parts, ∀ c ∈ p.1, isBlank c = true
  rest_blank : ∀ c ∈ rest, isBlank c = true

/-- A block behind white space is found in the next turn. -/
theorem Scan.cons {front after : List Char} {bs : List Block} (e : Entry skip)
    (hfront : ∀ c ∈ front, isBlank c = true) (h : Scan skip after bs) :
    Scan skip (front ++ (e.chars ++ after)) (e.block :: bs) := by
  have hfirst : FirstHead (front ++ (e.chars ++ after)) front e.head (e.body ++ '}' :: after) :=
    { split := by simp [Entry.chars]
      first := avoids_blank hfront _ }
  exact .turn (.found hfirst) h

theorem Section.scan (s : Section skip) : Scan skip s.text s.blocks := by
  obtain ⟨⟨parts, rest⟩, hfront, hrest⟩ := s
  induction parts with
  | nil => exact .done (headless_of_blank hrest)
  | cons p parts ih =>
    obtain ⟨hp, hfront⟩ := List.forall_mem_cons.mp hfront
    have htext : Layout.text ⟨p :: parts, rest⟩ =
        p.1 ++ (p.2.chars ++ Layout.text ⟨parts, rest⟩) := by
      simp [Layout.text]
    rw [htext]
    exact .cons p.2 hp (ih hfront hrest)

/-- **The blocks of a section are found turn by turn.**  No turns follow each other for ever, and
what is found in all of them are the blocks, on every text.  So every text is laid out as the
blocks that are found in it, each with a name that is not skipped and a body with matched braces,
one behind the other and with any text between them.  In a section in which white space is all the
text between the blocks, these are the blocks that are written. -/
theorem blocks_turn_by_turn (skip : List String) :
    (WellFounded fun after text => ∃ b, Turn skip text b after) ∧
      (∀ text bs, Scan skip text bs ↔ blocks text skip = bs) ∧
      (∀ text, ∃ l : Layout skip, l.text = text ∧ blocks text skip = l.blocks) ∧
      ∀ s : Section skip, blocks s.text skip = s.blocks := by
  refine ⟨wellFounded_turn skip, fun text bs => scan_iff, fun text => ?_,
    fun s => s.scan.blocks_eq⟩
  obtain ⟨l, htext, hblocks⟩ := (scan_iff.mpr rfl : Scan skip text _).exists_layout
  exact ⟨l, htext, hblocks.symm⟩

-- In a block that is not closed, the blocks inside are seen.
example : blocks "users: \x7b Row: \x7b id: number \x7d".toList [] =
    [⟨"Row", " id: number ".toList⟩] := by
  decide

end PlanAudit.Supabase
