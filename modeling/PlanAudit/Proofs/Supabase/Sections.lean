import PlanAudit.Proofs.Pattern.Quiet
import PlanAudit.Proofs.Supabase.Blocks
import PlanAudit.Proofs.Supabase.Written

/-!
# Sections and blocks that are found

A section is looked for by its heading in the whole text, the blocks of a section one behind the
other.  A heading ends in an opening brace, so that only the text in front of a brace has to be
compared with it: what has no brace, and what has another name in front of its brace, is passed
over.

## Main definitions

* `Passable T w`: in `w` no section with the title `T` begins, whatever stands around it

## Main results

* `passable_heading`, `passable_closed`: other headings, and text without a brace
* `sectionBody?_of_balanced`: the section that is found
* `blocks_flatMap`: the blocks that are found
-/

namespace PlanAudit.Supabase

open Text Pattern

/-! ## Indentation -/

theorem line_eq (n : Nat) (text : List Char) : line n text = line n [] ++ text := by simp [line]

theorem mem_line_nil {n : Nat} {x : Char} (h : x ∈ line n []) : x = '\n' ∨ x = ' ' := by
  rw [line, List.append_nil] at h
  exact (List.mem_cons.mp h).imp_right List.eq_of_mem_replicate

theorem isBlank_of_mem_line_nil {n : Nat} : ∀ c ∈ line n [], isBlank c = true := by
  intro c hc
  rcases mem_line_nil hc with rfl | rfl <;> decide

theorem isWord_of_mem_line_nil {n : Nat} {x : Char} (h : x ∈ line n []) : isWord x = false :=
  isWord_eq_false_of_isBlank (isBlank_of_mem_line_nil x h)

theorem last_concat {p : Char → Bool} {w : List Char} {z : Char} (hz : p z = false) :
    ∀ c ∈ (w ++ [z]).getLast?, p c = false := by
  intro c hc
  rw [List.getLast?_concat] at hc
  exact Option.some.inj hc ▸ hz

/-! ## Headings -/

section Heads

variable {T : String} {c d : Cursor}

/-- A match of a heading reads its title, a colon and a brace, and no name stands in front. -/
theorem exists_of_mem_sectionHead (hne : T.toList ≠ [])
    (hword : ∀ x ∈ T.toList, isWord x = true) (hd : d ∈ (sectionHead T).outcomes c) :
    c.before.any isWord = false ∧ ∃ gap, (∀ x ∈ gap, isBlank x = true) ∧
      c.rest = (T.toList ++ ':' :: gap) ++ '{' :: d.rest := by
  obtain ⟨c₂, hd, gap, hblank, hbehind⟩ := exists_gap_of_mem_outcomes hd
  obtain ⟨c₁, hedge, htitle⟩ := mem_outcomes_append.mp hd
  obtain ⟨hedge, rfl⟩ := mem_outcomes_here.mp hedge
  have hrest : c₁.rest = (T.toList ++ ':' :: gap) ++ '{' :: d.rest := by
    rw [(reads_of_mem_lit htitle).rest_eq, hbehind]
    simp
  refine ⟨?_, gap, hblank, hrest⟩
  -- The title starts with a part of a name, so that none stands in front of it.
  obtain ⟨x, rest, hx⟩ := List.exists_cons_of_ne_nil hne
  have hhead : c₁.rest.head?.any isWord = true := by
    rw [hrest, hx]
    exact hword x (by rw [hx]; exact List.mem_cons_self)
  rw [hhead] at hedge
  simpa using hedge

/-- The heading of a section is found where it stands behind no name. -/
theorem exists_matchHere_sectionHead (hne : T.toList ≠ [])
    (hword : ∀ x ∈ T.toList, isWord x = true) {before : Option Char}
    (hbefore : before.any isWord = false) (offset : Nat) (t : List Char) :
    ∃ m, (sectionHead T).matchHere before offset (heading T.toList ++ t) = some m ∧
      m.stop = offset + (heading T.toList).length := by
  let start : Cursor := ⟨before, offset, heading T.toList ++ t, []⟩
  have hrun : (sectionHead T).matchHere before offset (heading T.toList ++ t) =
      if start.before.any isWord != start.rest.head?.any isWord then
        (lit T ++ char ':' ++ blanks ++ char '{').run start fun c =>
          some ⟨offset, c.offset, heading T.toList ++ t, c.captures⟩
      else none := rfl
  have htaken : (lit T ++ char ':' ++ blanks ++ char '{').Takes
      (T.toList ++ [':'] ++ [' '] ++ ['{']) t :=
    (((takes_lit T).append (takes_char ':')).append
      (takes_blanks (by decide) (forall_head?_cons (by decide)))).append (takes_char '{')
  have hedge : (start.before.any isWord != start.rest.head?.any isWord) = true := by
    obtain ⟨x, rest, hx⟩ := List.exists_cons_of_ne_nil hne
    have hxword : isWord x = true := hword x (by rw [hx]; exact List.mem_cons_self)
    simp [start, hbefore, heading, hx, hxword]
  refine ⟨_, hrun.trans ((if_pos hedge).trans (htaken _ start _ _ ?_ rfl)), ?_⟩
  · simp [start, heading]
  · simp [start, heading]

end Heads

/-! ## Text in which no section begins -/

section Passable

variable {T : String} (hne : T.toList ≠ []) (hword : ∀ x ∈ T.toList, isWord x = true)

/-- In the text no section with the title begins, whatever stands around it. -/
def Passable (T : String) (w : List Char) : Prop := ∀ before t, (sectionHead T).Quiet before w t

theorem Passable.append {v w : List Char} (hv : Passable T v) (hw : Passable T w) :
    Passable T (v ++ w) :=
  fun before t => quiet_append.mpr ⟨hv before (w ++ t), hw _ t⟩

theorem passable_flatMap {α : Type} {f : α → List Char} {xs : List α}
    (h : ∀ x ∈ xs, Passable T (f x)) : Passable T (xs.flatMap f) := by
  induction xs with
  | nil => exact fun _ _ => trivial
  | cons x xs ih =>
    obtain ⟨hx, hxs⟩ := List.forall_mem_cons.mp h
    exact hx.append (ih hxs)

include hne hword

/-- A text that ends in its only brace is passed over, if no title stands in front of the brace. -/
theorem passable_of_not_title {v : List Char} (hbrace : '{' ∉ v)
    (htitle : ∀ u gap, v = u ++ (T.toList ++ ':' :: gap) → (∀ x ∈ gap, isBlank x = true) →
      (∀ x ∈ u.getLast?, isWord x = false) → False) : Passable T (v ++ ['{']) := by
  intro before t
  refine quiet_of_forall fun u s hsplit hs c d hbefore hrest hd => ?_
  obtain ⟨hfront, gap, hgap, hread⟩ := exists_of_mem_sectionHead hne hword hd
  -- What stands in front of the brace is the title with its colon.
  obtain ⟨s, rfl⟩ : ∃ s', s = s' ++ ['{'] := by
    have hlast : s.getLast? = some '{' := by
      rw [← List.getLast?_append_of_ne_nil u hs, ← hsplit, List.getLast?_concat]
    exact List.getLast?_eq_some_iff.mp hlast
  have hv : v = u ++ s := by
    rw [← List.append_assoc] at hsplit
    exact List.append_cancel_right hsplit
  have htitleBrace : '{' ∉ T.toList ++ ':' :: gap := by
    intro h
    rcases List.mem_append.mp h with h | h
    · exact absurd (hword _ h) (by decide)
    · rcases List.mem_cons.mp h with h | h
      · exact absurd h (by decide)
      · exact absurd (hgap _ h) (by decide)
  rw [hrest, List.append_assoc] at hread
  have hs' : s = T.toList ++ ':' :: gap :=
    (eq_of_append_cons_eq (fun h => hbrace (by rw [hv]; exact List.mem_append_right u h))
      htitleBrace hread).1
  refine htitle u gap (by rw [hv, hs']) hgap fun x hx => ?_
  rw [hbefore, Option.mem_def.mp hx] at hfront
  exact hfront

/-- The heading of another block is passed over. -/
theorem passable_heading {title : List Char} (htitle : ∀ x ∈ title, isWord x = true)
    (hother : title ≠ T.toList) (n : Nat) : Passable T (line n (heading title)) := by
  have hheading : line n (heading title) = (line n [] ++ (title ++ [':', ' '])) ++ ['{'] := by
    simp [line, heading]
  rw [hheading]
  refine passable_of_not_title hne hword (fun h => ?_) fun u gap hsplit hgap hu => ?_
  · rcases List.mem_append.mp h with h | h
    · rcases mem_line_nil h with h | h <;> exact absurd h (by decide)
    · rcases List.mem_append.mp h with h | h
      · exact absurd (htitle _ h) (by decide)
      · exact absurd h (by decide)
  · -- Without the white space at the end both sides end in a name and a colon.
    have hends : (line n [] ++ title ++ [':']) ++ [' '] = (u ++ T.toList ++ [':']) ++ gap := by
      simpa using hsplit
    obtain ⟨hcolon, -⟩ := eq_of_append_eq_append (p := isBlank) (by decide) hgap
      (last_concat (by decide)) (last_concat (by decide)) hends
    obtain ⟨-, hname⟩ := eq_of_append_eq_append htitle hword
      (fun x hx => isWord_of_mem_line_nil (List.mem_of_getLast? hx)) hu
      (List.append_cancel_right hcolon)
    exact hother hname

/-- A text without an opening brace is passed over, if what it ends in stands in no heading. -/
theorem passable_closed {w : List Char} {z : Char} (hw : '{' ∉ w) (hz : z = '}' ∨ z = ']') :
    Passable T (w ++ [z]) := by
  intro before t
  refine quiet_of_forall fun u s hsplit hs c d hbefore hrest hd => ?_
  obtain ⟨-, gap, hgap, hread⟩ := exists_of_mem_sectionHead hne hword hd
  have hzs : z ∈ s := by
    have hlast : s.getLast? = some z := by
      rw [← List.getLast?_append_of_ne_nil u hs, ← hsplit, List.getLast?_concat]
    exact List.mem_of_getLast? hlast
  have hbrace : '{' ∉ s := by
    intro h
    have hmem : '{' ∈ w ++ [z] := by
      rw [hsplit]
      exact List.mem_append_right u h
    rcases List.mem_append.mp hmem with h | h
    · exact hw h
    · rcases hz with rfl | rfl <;> exact absurd h (by decide)
  -- The match reads the whole piece in front of its brace, with what the piece ends in.
  rw [hrest] at hread
  obtain ⟨r, hr⟩ : s <+: T.toList ++ ':' :: gap := by
    rcases List.append_eq_append_iff.mp hread with ⟨r, hr, -⟩ | ⟨r, hr, hbehind⟩
    · exact ⟨r, hr.symm⟩
    · cases r with
      | nil => exact ⟨[], by rw [hr]; simp⟩
      | cons x r =>
        obtain ⟨rfl, -⟩ := List.cons.inj hbehind
        exact absurd (by rw [hr]; simp) hbrace
  have hmem : z ∈ T.toList ++ ':' :: gap := by
    rw [← hr]
    exact List.mem_append_left r hzs
  rcases List.mem_append.mp hmem with h | h
  · rcases hz with rfl | rfl <;> exact absurd (hword _ h) (by decide)
  · rcases List.mem_cons.mp h with h | h
    · rcases hz with rfl | rfl <;> exact absurd h (by decide)
    · rcases hz with rfl | rfl <;> exact absurd (hgap _ h) (by decide)

end Passable

/-! ## The section that is found -/

/-- The section with the title is found where the text in front is passed over. -/
theorem exists_search_sectionHead {T : String} (hne : T.toList ≠ [])
    (hword : ∀ x ∈ T.toList, isWord x = true) {u : List Char} (hu : Passable T u) (n : Nat)
    (t : List Char) :
    ∃ m, (sectionHead T).search (u ++ (line n (heading T.toList) ++ t)) = some m ∧
      m.stop = (u ++ line n (heading T.toList)).length := by
  have hstarts : StartsWith isWord (sectionHead T) := by
    intro c d hd
    obtain ⟨-, gap, -, hrest⟩ := exists_of_mem_sectionHead hne hword hd
    obtain ⟨x, rest, hx⟩ := List.exists_cons_of_ne_nil hne
    exact ⟨x, _, by rw [hrest, hx]; rfl, hword x (by rw [hx]; exact List.mem_cons_self)⟩
  have hbefore : (((line n []).getLast?).or (u.getLast?.or none)).any isWord = false := by
    cases hlast : (line n []).getLast? with
    | none => simp [line] at hlast
    | some x => exact isWord_of_mem_line_nil (List.mem_of_getLast? hlast)
  obtain ⟨m, hm, hstop⟩ := exists_matchHere_sectionHead hne hword hbefore
    (0 + u.length + (line n []).length) t
  refine ⟨m, ?_, ?_⟩
  · rw [search, searchFrom, line_eq, List.append_assoc, searchScan_append_of_quiet (hu _ _),
      searchScan_append_of_quiet (hstarts.quiet fun _ => isWord_of_mem_line_nil)]
    exact searchScan_of_matchHere hm
  · rw [hstop, line_eq n (heading _)]
    simp [Nat.add_assoc]

/-- **The body of the section that is found** reaches up to the brace that closes it. -/
theorem sectionBody?_of_balanced {T : String} (hne : T.toList ≠ [])
    (hword : ∀ x ∈ T.toList, isWord x = true) {u body : List Char} (hu : Passable T u)
    (hbody : Balanced .curly body) (n : Nat) (t : List Char) :
    sectionBody? (u ++ (line n (heading T.toList) ++ (body ++ '}' :: t))) T = some body := by
  obtain ⟨m, hm, hstop⟩ := exists_search_sectionHead hne hword hu n (body ++ '}' :: t)
  have hslice : balancedSlice? (u ++ (line n (heading T.toList) ++ (body ++ '}' :: t)))
      (u ++ line n (heading T.toList)).length .curly =
        some ⟨body, (u ++ line n (heading T.toList)).length + body.length + 1⟩ := by
    rw [← List.append_assoc]
    exact balancedSlice?_of_balanced hbody _ t
  rw [sectionBody?, hm, Option.map_some, hstop, balancedSlice, hslice]
  rfl

/-! ## The blocks that are found -/

theorem balanced_line {n : Nat} {text : List Char} (h : Balanced .curly text) :
    Balanced .curly (line n text) := by
  rw [line_eq]
  refine Balanced.append (balanced_of_free fun c hc => ?_) h
  rcases mem_line_nil hc with rfl | rfl <;> decide

theorem balanced_indent {n : Nat} : Balanced .curly (line n []) := balanced_line fun _ => rfl

/-- A block with a balanced body is balanced. -/
theorem balanced_block {n : Nat} {title body : List Char} (htitle : ∀ x ∈ title, isWord x = true)
    (hbody : Balanced .curly body) : Balanced .curly (block n title body) := by
  have hblock : block n title body =
      line n (title ++ [':', ' ']) ++ '{' :: ((body ++ line n []) ++ ['}']) := by
    simp [block, line, heading]
  have hhead : Balanced .curly (title ++ [':', ' ']) := by
    refine balanced_of_free fun c hc => ?_
    rcases List.mem_append.mp hc with hc | hc
    · constructor <;> rintro rfl <;> exact absurd (htitle _ hc) (by decide)
    · rcases List.mem_cons.mp hc with rfl | hc
      · decide
      · rw [List.mem_singleton.mp hc]
        decide
  rw [hblock]
  exact (balanced_line hhead).append (hbody.append balanced_indent).wrap

section Blocks

variable {α : Type} {name body : α → List Char} {skip : List String} {n k : Nat}

/-- **The blocks that are found in a section** are those that are written, in their order. -/
theorem blocks_flatMap {xs : List α} (hname : ∀ x ∈ xs, name x ≠ [] ∧
      (∀ c ∈ name x, isWord c = true) ∧ String.ofList (name x) ∉ skip)
    (hbody : ∀ x ∈ xs, Balanced .curly (body x)) :
    blocks (xs.flatMap (fun x => block n (name x) (body x)) ++ line k []) skip =
      xs.map fun x => ⟨String.ofList (name x), body x ++ line n []⟩ := by
  refine Scan.blocks_eq ?_
  -- Induction along the blocks: each of them is found in one turn.
  induction xs with
  | nil => exact .done (headless_of_blank isBlank_of_mem_line_nil)
  | cons x xs ih =>
    obtain ⟨⟨hne, hword, hskip⟩, hname⟩ := List.forall_mem_cons.mp hname
    obtain ⟨hbalanced, hbody⟩ := List.forall_mem_cons.mp hbody
    let e : Entry skip :=
      { head := ⟨name x, [' '], hne, hword, by decide⟩
        body := body x ++ line n []
        kept := hskip
        body_matched := (hbalanced.append balanced_indent).matched }
    have htext : (x :: xs).flatMap (fun x => block n (name x) (body x)) ++ line k [] =
        line n [] ++
          (e.chars ++ (xs.flatMap (fun x => block n (name x) (body x)) ++ line k [])) := by
      simp [e, Entry.chars, Head.chars, block, line, heading]
    rw [htext]
    exact .cons e isBlank_of_mem_line_nil (ih hname hbody)

end Blocks

/-! ## Texts without braces -/

/-- The text has no braces. -/
def Braceless (w : List Char) : Prop := ∀ c ∈ w, c ≠ '{' ∧ c ≠ '}'

instance (w : List Char) : Decidable (Braceless w) :=
  inferInstanceAs (Decidable (∀ c ∈ w, c ≠ '{' ∧ c ≠ '}'))

theorem Braceless.balanced {w : List Char} (h : Braceless w) : Balanced .curly w :=
  balanced_of_free h

theorem Braceless.depthAfter_append {v : List Char} (h : Braceless v) (depth : Nat)
    (w : List Char) : depthAfter .curly depth (v ++ w) = depthAfter .curly depth w := by
  rw [Text.depthAfter_append, h.balanced, Option.bind_some]

theorem Braceless.append {v w : List Char} (hv : Braceless v) (hw : Braceless w) :
    Braceless (v ++ w) :=
  fun c hc => (List.mem_append.mp hc).elim (hv c) (hw c)

theorem braceless_word {w : List Char} (h : ∀ c ∈ w, isWord c = true) : Braceless w := by
  intro c hc
  constructor <;> rintro rfl <;> exact absurd (h _ hc) (by decide)

theorem braceless_indent {n : Nat} : Braceless (line n []) := by
  intro c hc
  rcases mem_line_nil hc with rfl | rfl <;> decide

theorem Braceless.line {n : Nat} {w : List Char} (h : Braceless w) : Braceless (line n w) := by
  rw [line_eq]
  exact braceless_indent.append h

theorem braceless_flatMap {α : Type} {f : α → List Char} {xs : List α}
    (h : ∀ x ∈ xs, Braceless (f x)) : Braceless (xs.flatMap f) := by
  intro c hc
  obtain ⟨x, hx, hc⟩ := List.mem_flatMap.mp hc
  exact h x hx c hc

theorem TypeText.braceless (t : TypeText) : Braceless t.chars := fun c hc => (t.plain c hc).2.2

theorem Field.braceless (f : Field) : Braceless f.chars :=
  (braceless_word f.name.word).append
    (Braceless.append (v := [':', ' ']) (by decide) f.type.braceless)

theorem Input.braceless (i : Input) : Braceless i.chars := by
  refine (braceless_word i.field.name.word).append (Braceless.append ?_
    (Braceless.append (v := [':', ' ']) (by decide) i.field.type.braceless))
  cases i.optional <;> decide

theorem braceless_partRow {ps : List (List Char)} (h : ∀ p ∈ ps, Braceless p) :
    Braceless (partRow ps) := by
  cases ps with
  | nil => exact fun _ h => absurd h List.not_mem_nil
  | cons p ps =>
    obtain ⟨hp, hps⟩ := List.forall_mem_cons.mp h
    refine Braceless.append (v := [' ']) (by decide) (hp.append (braceless_flatMap fun q hq => ?_))
    exact Braceless.append (v := [';', ' ']) (by decide) (hps q hq)

theorem Fields.braceless (fs : Fields) : ∀ p ∈ fs.list.map Field.chars, Braceless p :=
  List.forall_mem_map.mpr fun f _ => f.braceless

theorem Inputs.braceless (is : Inputs) : ∀ p ∈ is.list.map Input.chars, Braceless p :=
  List.forall_mem_map.mpr fun i _ => i.braceless

/-- What stands between the braces of a block inside an entry. -/
def partBody (inline : Bool) (parts : List (List Char)) : List Char :=
  if inline then partRow parts ++ [' '] else partLines parts ++ line 8 []

/-- On one line or on several, a block has a heading, its parts and a brace. -/
theorem partBlock_eq (title : List Char) (inline : Bool) (parts : List (List Char)) :
    partBlock title inline parts =
      line 8 (heading title) ++ (partBody inline parts ++ ['}']) := by
  cases inline <;> simp [partBlock, partBody, block, line]

theorem braceless_partBody {inline : Bool} {ps : List (List Char)} (h : ∀ p ∈ ps, Braceless p) :
    Braceless (partBody inline ps) := by
  cases inline with
  | true => exact (braceless_partRow h).append (by decide)
  | false => exact (braceless_flatMap fun p hp => (h p hp).line).append braceless_indent

/-! ## The entries of a section -/

theorem balanced_partBlock {title : List Char} (htitle : ∀ c ∈ title, isWord c = true)
    {inline : Bool} {ps : List (List Char)} (h : ∀ p ∈ ps, Braceless p) :
    Balanced .curly (partBlock title inline ps) := by
  have htext : partBlock title inline ps =
      line 8 (title ++ [':', ' ']) ++ '{' :: (partBody inline ps ++ ['}']) := by
    rw [partBlock_eq]
    simp [line, heading]
  have hhead : Braceless (line 8 (title ++ [':', ' '])) :=
    ((braceless_word htitle).append (by decide)).line
  rw [htext]
  exact hhead.balanced.append (braceless_partBody h).balanced.wrap

/-- The inside of a table is balanced. -/
theorem TableText.balanced_body (t : TableText) : Balanced .curly t.body :=
  (balanced_partBlock (by decide) t.columns.braceless).append
    ((balanced_partBlock (by decide) t.insert.braceless).append
      ((balanced_partBlock (by decide) t.update.braceless).append (balanced_line fun _ => rfl)))

/-- The inside of a function is balanced. -/
theorem FunctionText.balanced_body (f : FunctionText) : Balanced .curly f.body := by
  have hreturns : Braceless (line 8 ("Returns: ".toList ++ f.returns.chars)) :=
    (Braceless.append (by decide) f.returns.braceless).line
  exact (balanced_partBlock (by decide) f.args.braceless).append hreturns.balanced

/-- The titles of the sections. -/
def sectionTitles : List String := ["Tables", "Functions", "Enums"]

theorem Name.ne_of_mem_layoutNames (n : Name) {T : String} (hT : T ∈ layoutNames) :
    n.chars ≠ T.toList := by
  intro h
  refine n.free ?_
  rwa [h, String.ofList_toList]

section Title

variable {T : String} (hT : T ∈ sectionTitles)

include hT

theorem title_ne_nil : T.toList ≠ [] := by
  revert T
  decide

theorem title_word : ∀ c ∈ T.toList, isWord c = true := by
  revert T
  decide

theorem title_mem_layoutNames : T ∈ layoutNames := by
  revert T
  decide

/-- A block inside an entry is passed over. -/
theorem passable_partBlock {title : List Char} (htitle : ∀ c ∈ title, isWord c = true)
    (hother : title ≠ T.toList) {inline : Bool} {ps : List (List Char)}
    (h : ∀ p ∈ ps, Braceless p) : Passable T (partBlock title inline ps) := by
  rw [partBlock_eq]
  exact (passable_heading (title_ne_nil hT) (title_word hT) htitle hother 8).append
    (passable_closed (title_ne_nil hT) (title_word hT)
      (fun hbrace => (braceless_partBody h _ hbrace).1 rfl) (Or.inl rfl))

/-- The closing brace of a block is passed over, with text without braces in front of it. -/
theorem passable_close {n : Nat} {w : List Char} (hw : Braceless w) :
    Passable T (w ++ line n ['}']) := by
  rw [line_eq, ← List.append_assoc]
  exact passable_closed (title_ne_nil hT) (title_word hT)
    (fun h => ((hw.append braceless_indent) _ h).1 rfl) (Or.inl rfl)

theorem passable_table (t : TableText) : Passable T t.chars := by
  have hparts : ∀ part ∈ ["Row", "Insert", "Update"], part.toList ≠ T.toList := by
    revert T
    decide
  have hblocks : Passable T (t.body ++ line 6 ['}']) := by
    simp only [TableText.body, List.append_assoc]
    refine (passable_partBlock hT (by decide) (hparts "Row" (by decide))
      t.columns.braceless).append ?_
    refine (passable_partBlock hT (by decide) (hparts "Insert" (by decide))
      t.insert.braceless).append ?_
    refine (passable_partBlock hT (by decide) (hparts "Update" (by decide))
      t.update.braceless).append ?_
    exact passable_close hT (by decide)
  exact (passable_heading (title_ne_nil hT) (title_word hT) t.name.word
    (t.name.ne_of_mem_layoutNames (title_mem_layoutNames hT)) 6).append hblocks

theorem passable_function (f : FunctionText) : Passable T f.chars := by
  have hargs : "Args".toList ≠ T.toList := by
    revert T
    decide
  have hblock : Passable T (f.body ++ line 6 ['}']) := by
    rw [FunctionText.body, List.append_assoc]
    refine (passable_partBlock hT (by decide) hargs f.args.braceless).append ?_
    exact passable_close hT (Braceless.append (by decide) f.returns.braceless).line
  exact (passable_heading (title_ne_nil hT) (title_word hT) f.name.word
    (f.name.ne_of_mem_layoutNames (title_mem_layoutNames hT)) 6).append hblock

/-- A whole section with another title is passed over. -/
theorem passable_section {title : String} (htitle : title ∈ sectionTitles)
    (hother : title.toList ≠ T.toList) {body : List Char} (hbody : Passable T body) :
    Passable T (block 4 title.toList body) :=
  (passable_heading (title_ne_nil hT) (title_word hT) (title_word htitle) hother 4).append
    (hbody.append (passable_close hT (w := []) fun _ h => absurd h List.not_mem_nil))

/-- What stands in front of the sections is passed over. -/
theorem passable_front (s : SchemaText) : Passable T s.front := by
  have hpublic : "public".toList ≠ T.toList := by
    revert T
    decide
  have hexport : Passable T (s.preamble ++ "export type Database = ".toList ++ ['{']) := by
    refine passable_of_not_title (title_ne_nil hT) (title_word hT) (fun h => ?_)
      fun u gap hsplit hgap _ => ?_
    · exact (List.mem_append.mp h).elim s.preamble_plain (by decide)
    · -- In front of the brace stands an equals sign, and no colon.
      have hends : (s.preamble ++ "export type Database ".toList ++ ['=']) ++ [' '] =
          (u ++ T.toList ++ [':']) ++ gap := by simpa using hsplit
      obtain ⟨hsign, -⟩ := eq_of_append_eq_append (p := isBlank) (by decide) hgap
        (last_concat (by decide)) (last_concat (by decide)) hends
      have hend := congrArg List.getLast? hsign
      rw [List.getLast?_concat, List.getLast?_concat] at hend
      cases hend
  exact hexport.append (passable_heading (title_ne_nil hT) (title_word hT) (by decide) hpublic 2)

end Title

end PlanAudit.Supabase
