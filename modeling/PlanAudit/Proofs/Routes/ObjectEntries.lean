import PlanAudit.Proofs.Pattern.Choices
import PlanAudit.Proofs.Pattern.Leftmost
import PlanAudit.Proofs.Text.Brackets
import PlanAudit.Proofs.Text.ObjectKeys
import PlanAudit.Routes.CallRouter

/-!
# Entries of a route object

A router may register a route by an object with a method and a path.  The object is taken to end at
the first closing brace, whichever brace that closes, and of what is taken the first place that
reads like an entry of a key is the entry.  So an entry that is written is the one that is read
exactly if it stands in front of every closing brace, is written as the pattern has it, and nothing
in front of it reads like it.

## Main definitions

* `RouteKey`: the two keys; `RouteKey.Begins` tells where an entry of one of them is read
* `Entry`, `EntryIn`: an entry as it is written, and where it stands in an object
* `EntryIn.Legible`: what an entry needs to be read

## Main results

* `RouteKey.Begins.exists_matchHere`, `RouteKey.exists_begins`: where the pattern of a key matches
* `EntryIn.readFrom_iff`: when an entry is read
-/

namespace PlanAudit.Routes

open Text Pattern

/-! ## Entries as they are read -/

/-- The characters that a path in an entry may not hold. -/
theorem contains_quotation (c : Char) : "\"'\x60".toList.contains c = isQuotation c := by
  have hleft : "\"'\x60".toList = ['"', '\'', '\x60'] := rfl
  have hright : "'\"\x60".toList = ['\'', '"', '\x60'] := rfl
  rw [Bool.eq_iff_iff, isQuotation, hleft, hright, List.contains_iff_mem, List.contains_iff_mem]
  simp only [List.mem_cons]
  tauto

/-- The keys that are looked for in the object. -/
inductive RouteKey where
  | method
  | url

namespace RouteKey

/-- The name of the key. -/
def name : RouteKey → String
  | method => "method"
  | url => "url"

/-- The pattern of an entry of the key. -/
def entry : RouteKey → Pattern
  | method => methodEntry
  | url => urlEntry

/-- The pattern of its value. -/
def value : RouteKey → Pattern
  | method => Pattern.name
  | url => char '/' ++ star (noneOf "\"'\x60")

/-- The values that the pattern reads. -/
def Admits : RouteKey → List Char → Prop
  | method, v => v ≠ [] ∧ ∀ c ∈ v, isWord c = true
  | url, v => v.head? = some '/' ∧ ∀ c ∈ v, isQuotation c = false

/-- The text begins with an entry of the key: `v` is the value, and `t` stands behind the entry. -/
inductive Begins (k : RouteKey) : List Char → List Char → List Char → Prop
  | intro (gaps : Blanks × Blanks) {q q' : Char} {v t : List Char} (opening : isQuotation q = true)
      (closing : isQuotation q' = true) (value : k.Admits v) :
      Begins k (k.name.toList ++ (gaps.1.chars ++ ':' :: (gaps.2.chars ++ q :: (v ++ q' :: t)))) v t

variable {k : RouteKey} {s v t : List Char} {before : Option Char} {offset : Nat} {m : Match}

theorem takes_value (h : k.Admits v) {q : Char} (hq : isQuotation q = true) :
    k.value.Takes v (q :: t) := by
  cases k with
  | method => exact takes_name h.1 h.2 (forall_head?_cons (not_blank_of_isQuotation hq).2)
  | url =>
    obtain ⟨hhead, hunquoted⟩ := h
    cases v with
    | nil => cases hhead
    | cons x v =>
      obtain rfl : x = '/' := Option.some.inj hhead
      refine (takes_char '/').append (takes_loop_one (fun c hc => ?_) (Nat.zero_le _)
        (forall_head?_cons (by rw [contains_quotation, hq]; rfl)))
      rw [contains_quotation, hunquoted c (List.mem_cons_of_mem _ hc)]
      rfl

theorem exists_reads_value {c d : Cursor} (hd : d ∈ k.value.outcomes c) :
    ∃ v, c.Reads v d ∧ k.Admits v := by
  cases k with
  | method =>
    obtain ⟨v, hv, hne, hword⟩ := exists_reads_of_mem_plus hd
    exact ⟨v, hv, hne, hword⟩
  | url =>
    obtain ⟨e, he, hd⟩ := mem_outcomes_append.mp hd
    obtain ⟨v, r, hv, hrest, rfl⟩ := mem_outcomes_star_one.mp hd
    refine ⟨'/' :: v, (reads_of_mem_char he).trans ⟨hrest, rfl⟩, rfl, ?_⟩
    refine List.forall_mem_cons.mpr ⟨by decide, fun c hc => ?_⟩
    have hchar := hv c hc
    rwa [contains_quotation, Bool.not_eq_true'] at hchar

/-- **Where an entry stands the pattern reads it.** -/
theorem Begins.exists_matchHere (h : k.Begins s v t) (before : Option Char) (offset : Nat) :
    ∃ m, k.entry.matchHere before offset s = some m ∧ m.start = offset ∧
      m.stop + t.length = offset + s.length ∧ m.group 1 = v := by
  obtain @⟨⟨gap, gap'⟩, q, q', v, t, hq, hq', hv⟩ := h
  let start : Cursor := ⟨before, offset,
    k.name.toList ++ (gap.chars ++ ':' :: (gap'.chars ++ q :: (v ++ q' :: t))), []⟩
  have hrun : k.entry.matchHere before offset start.rest =
      (lit k.name ++ blanks ++ char ':' ++ blanks ++ anyQuote).run start fun e =>
        k.value.run e fun f => anyQuote.run (f.record 1 e) fun g =>
          some ⟨offset, g.offset, start.rest, g.captures⟩ := by cases k <;> rfl
  have hhead : (lit k.name ++ blanks ++ char ':' ++ blanks ++ anyQuote).Takes
      (k.name.toList ++ gap.chars ++ [':'] ++ gap'.chars ++ [q]) (v ++ q' :: t) :=
    ((((takes_lit _).append (takes_blanks gap.blank (forall_head?_cons (by decide)))).append
      (takes_char ':')).append (takes_blanks gap'.blank
        (forall_head?_cons (not_blank_of_isQuotation hq).1))).append (takes_one hq)
  have hrest : start.rest =
      (k.name.toList ++ gap.chars ++ [':'] ++ gap'.chars ++ [q]) ++ (v ++ q' :: t) := by
    simp [start]
  refine ⟨_, hrun.trans (hhead _ _ _ _ hrest (takes_value hv hq' _ _ _ _ rfl
    (takes_one hq' _ _ _ _ rfl rfl))), rfl, ?_, ?_⟩
  · simp [Cursor.record, start]
    omega
  · exact Capture.text_eq

/-- What the pattern reads is an entry. -/
theorem exists_begins (hm : k.entry.matchHere before offset s = some m) :
    ∃ v t, k.Begins s v t := by
  have hentry : k.entry.matchHere before offset s = (lit k.name ++ blanks ++ char ':' ++ blanks ++
      anyQuote ++ capture 1 k.value ++ anyQuote).matchHere before offset s := by cases k <;> rfl
  obtain ⟨d, hd, -⟩ := exists_outcome_of_matchHere (hentry ▸ hm)
  obtain ⟨c₆, hd, hclose⟩ := mem_outcomes_append.mp hd
  obtain ⟨c₅, hd, hvalue⟩ := mem_outcomes_append.mp hd
  obtain ⟨c₄, hd, hopen⟩ := mem_outcomes_append.mp hd
  obtain ⟨c₃, hd, hgap'⟩ := mem_outcomes_append.mp hd
  obtain ⟨c₂, hd, hcolon⟩ := mem_outcomes_append.mp hd
  obtain ⟨c₁, hname, hgap⟩ := mem_outcomes_append.mp hd
  obtain ⟨g, r, hg, hrest₁, rfl⟩ := mem_outcomes_star_one.mp hgap
  obtain ⟨g', r', hg', hrest₃, rfl⟩ := mem_outcomes_star_one.mp hgap'
  obtain ⟨q, qs, hrest₄, hq, rfl⟩ := mem_outcomes_one.mp hopen
  obtain ⟨e, he, rfl⟩ := mem_outcomes_capture.mp hvalue
  obtain ⟨v, hv, hadmits⟩ := exists_reads_value he
  obtain ⟨q', t, hrest₆, hq', rfl⟩ := mem_outcomes_one.mp hclose
  refine ⟨v, t, ?_⟩
  have htext : s = k.name.toList ++ (g ++ ':' :: (g' ++ q :: (v ++ q' :: t))) := by
    have hstart : s = k.name.toList ++ c₁.rest := (reads_of_mem_lit hname).rest_eq
    have hrest₂ : r = ':' :: c₃.rest := (reads_of_mem_char hcolon).rest_eq
    have hrest₄ : r' = q :: qs := hrest₄
    have hrest₅ : qs = v ++ e.rest := hv.rest_eq
    have hrest₆ : e.rest = q' :: t := hrest₆
    rw [hstart, hrest₁, hrest₂, hrest₃, hrest₄, hrest₅, hrest₆]
  rw [htext]
  exact ⟨⟨⟨g, hg⟩, ⟨g', hg'⟩⟩, hq, hq', hadmits⟩

/-- A text begins with an entry in one way only. -/
theorem Begins.unique {v' t' : List Char} (h : k.Begins s v t) (h' : k.Begins s v' t') :
    v = v' ∧ t.length = t'.length := by
  obtain ⟨m, hm, -, hstop, hvalue⟩ := h.exists_matchHere none 0
  obtain ⟨m', hm', -, hstop', hvalue'⟩ := h'.exists_matchHere none 0
  obtain rfl := Option.some.inj (hm.symm.trans hm')
  exact ⟨hvalue.symm.trans hvalue', by omega⟩

theorem Begins.admits (h : k.Begins s v t) : k.Admits v := by
  obtain ⟨-, -, -, hv⟩ := h
  exact hv

/-- Where an entry stands another text may follow. -/
theorem Begins.append (h : k.Begins s v t) (z : List Char) : k.Begins (s ++ z) v (t ++ z) := by
  obtain ⟨gaps, hq, hq', hv⟩ := h
  have htext := Begins.intro (t := t ++ z) gaps hq hq' hv
  simpa using htext

end RouteKey

/-! ## Entries as they are written -/

/-- An entry of the key whose value is a text between quotation marks. -/
structure Entry (k : RouteKey) where
  /-- The quotation mark on both sides of the key, if there is one. -/
  mark : Option Char
  mark_quotation : ∀ q ∈ mark, isQuotation q = true
  /-- What stands on both sides of the colon. -/
  gaps : Blanks × Blanks
  /-- The quotation mark on both sides of the value. -/
  quote : Char
  quote_quotation : isQuotation quote = true
  /-- The value. -/
  value : List Char
  value_unquoted : quote ∉ value
  /-- A path starts with a slash. -/
  value_rooted : k = .url → value.head? = some '/'

/-- The text of the entry. -/
def Entry.chars {k : RouteKey} (e : Entry k) : List Char :=
  e.mark.toList ++ (k.name.toList ++ (e.mark.toList ++ (e.gaps.1.chars ++ ':' ::
    (e.gaps.2.chars ++ e.quote :: (e.value ++ [e.quote])))))

/-- An entry at the top level of what stands between two braces. -/
structure EntryIn (k : RouteKey) (body : List Char) where
  /-- What stands in front. -/
  front : List Char
  /-- The entry. -/
  entry : Entry k
  /-- What stands behind. -/
  back : List Char
  body_eq : body = front ++ (entry.chars ++ back)
  /-- No brace is open at the entry. -/
  front_balanced : Balanced .curly front
  /-- A comma stands in front of the entry, or nothing but white space. -/
  front_ended : ∀ c ∈ (stripEnd front).getLast?, c = ','

/-- What is taken of the text between the braces. -/
def openPart (body : List Char) : List Char := body.takeWhile (· != '}')

section Entries

variable {k : RouteKey} {body : List Char} (e : EntryIn k body)

/-- The entry is what is read of the text. -/
def EntryIn.ReadFrom (text : List Char) : Prop :=
  ∃ m, k.entry.search text = some m ∧ m.start = e.front.length ∧ m.group 1 = e.entry.value

/-- Nothing keeps the entry from being read. -/
structure EntryIn.Legible : Prop where
  /-- It stands in front of every closing brace. -/
  exposed : '}' ∉ e.front ++ e.entry.chars
  /-- Its key does not stand between quotation marks. -/
  bare : e.entry.mark = none
  /-- The pattern reads its value. -/
  admitted : k.Admits e.entry.value
  /-- Nothing in front of it reads like an entry of the key. -/
  first : ∀ u s v t, openPart body = u ++ s → u.length < e.front.length → ¬ k.Begins s v t

theorem Entry.begins {e : Entry k} (hbare : e.mark = none) (hvalue : k.Admits e.value)
    (t : List Char) : k.Begins (e.chars ++ t) e.value t := by
  have htext := RouteKey.Begins.intro (t := t) e.gaps e.quote_quotation e.quote_quotation hvalue
  rw [Entry.chars, hbare]
  simpa using htext

theorem Entry.mark_eq_none {e : Entry k} {s v t r z : List Char} (h : k.Begins s v t)
    (hsplit : e.chars ++ r = s ++ z) : e.mark = none := by
  cases hmark : e.mark with
  | none => rfl
  | some q =>
    -- An entry that is read begins with a letter.
    obtain ⟨gaps, -, -, -⟩ := h
    have hquote : isQuotation q = true := e.mark_quotation q hmark
    rw [Entry.chars, hmark] at hsplit
    have hname : ∃ x w, k.name.toList = x :: w ∧ isQuotation x = false := by
      cases k <;> exact ⟨_, _, rfl, by decide⟩
    obtain ⟨x, w, hx, hletter⟩ := hname
    rw [hx] at hsplit
    obtain rfl : q = x := (List.cons.inj hsplit).1
    rw [hletter] at hquote
    cases hquote

/-- What is taken reaches beyond what holds no closing brace. -/
theorem openPart_append {w t : List Char} (hw : '}' ∉ w) :
    openPart (w ++ t) = w ++ openPart t :=
  List.takeWhile_append_of_pos fun _ hc => bne_iff_ne.mpr fun heq => hw (heq ▸ hc)

theorem not_mem_openPart (body : List Char) : '}' ∉ openPart body := fun h => by
  simpa using List.mem_takeWhile_imp h

/-- An entry that is read stands in what is taken. -/
theorem EntryIn.Legible.of_readFrom (h : e.ReadFrom (openPart body)) : e.Legible := by
  obtain ⟨m, hsearch, hstart, hvalue⟩ := h
  obtain ⟨hstands, hfirst⟩ := search_eq_some_iff.mp hsearch
  obtain ⟨u, s, hsplit, hu, hm⟩ := hstands.exists_split
  obtain ⟨v, t, hbegins⟩ := RouteKey.exists_begins hm
  obtain rfl : v = e.entry.value := by
    obtain ⟨m', hm', -, -, hvalue'⟩ := hbegins.exists_matchHere u.getLast? u.length
    obtain rfl := Option.some.inj (hm.symm.trans hm')
    exact hvalue'.symm.trans hvalue
  -- What is taken starts the object, so that the entry that is written stands where one is read.
  obtain ⟨z, hz⟩ : openPart body <+: body := List.takeWhile_prefix _
  have hwhole : u ++ (s ++ z) = e.front ++ (e.entry.chars ++ e.back) := by
    rw [← List.append_assoc, ← hsplit, hz]
    exact e.body_eq
  obtain ⟨rfl, hbehind⟩ := List.append_inj hwhole (hu.trans hstart)
  have hbare := Entry.mark_eq_none hbegins hbehind.symm
  have hadmits : k.Admits e.entry.value := hbegins.admits
  have hlength := ((hbehind ▸ hbegins.append z).unique (Entry.begins hbare hadmits e.back)).2
  refine ⟨fun hbrace => ?_, hbare, hadmits, fun u' s' v' t' hsplit' hu' hbegins' => ?_⟩
  · -- Both end at the same place, so that the written one is taken as a whole.
    have hle : e.entry.chars.length ≤ s.length := by
      have hsum := congrArg List.length hbehind
      simp only [List.length_append] at hsum hlength
      omega
    obtain ⟨r, hr⟩ := List.prefix_of_prefix_length_le ⟨e.back, hbehind.symm⟩ ⟨z, rfl⟩ hle
    refine not_mem_openPart body ?_
    rw [hsplit, ← hr, ← List.append_assoc]
    exact List.mem_append_left r hbrace
  · obtain ⟨m', hm', hstart', -⟩ := hbegins'.exists_matchHere u'.getLast? u'.length
    have hle := hfirst m' ⟨u', s', hsplit', hm'⟩
    omega

/-- **When an entry is read** of what is taken of the object. -/
theorem EntryIn.readFrom_iff : e.ReadFrom (openPart body) ↔ e.Legible := by
  refine ⟨.of_readFrom e, fun h => ?_⟩
  have hbegins := Entry.begins h.bare h.admitted (openPart e.back)
  obtain ⟨m, hm, hstart, -, hvalue⟩ := hbegins.exists_matchHere e.front.getLast? e.front.length
  have hopen : openPart body = e.front ++ (e.entry.chars ++ openPart e.back) := by
    conv_lhs => rw [e.body_eq]
    rw [← List.append_assoc, openPart_append h.exposed, List.append_assoc]
  refine ⟨m, search_eq_some_iff.mpr ⟨⟨_, _, hopen, hm⟩, fun m' hm' => ?_⟩, hstart, hvalue⟩
  -- A match in front of it would be an entry there.
  by_contra hlt
  obtain ⟨u, s, hsplit, hu, hfound⟩ := hm'.exists_split
  obtain ⟨v, t, hearlier⟩ := RouteKey.exists_begins hfound
  exact h.first u s v t hsplit (by omega) hearlier

end Entries

end PlanAudit.Routes
