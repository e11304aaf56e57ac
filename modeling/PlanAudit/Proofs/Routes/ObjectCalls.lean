import Mathlib.Data.List.DropRight
import PlanAudit.Proofs.Pattern.Positions
import PlanAudit.Proofs.Routes.ObjectEntries

/-!
# Routes registered by an object

A call that registers a route by an object is found where it stands unless it stands inside of the
object of another call: a match starts with the name of a router and ends with the first closing
brace behind the brace that opens the object, so that two of them overlap only if no closing brace
stands in between.  What is read of a call that is found depends on its entries alone.

## Main definitions

* `ObjectCall`: a call with an object in which both entries stand at the top level
* `ObjectCall.RegisteredIn`: the route is registered by the two entries of the call
* `StandsApart`: what a call needs to be found

## Main results

* `exists_mem_findAll_call`, `standsApart_of_mem_findAll`: when a call is found
* `registeredIn_iff`: when a route is registered by the entries of a call
* `braces_cut_short`: of a call with an object in front of the entries nothing is registered
-/

namespace PlanAudit.Routes

open Text Pattern

/-! ## Calls -/

/-- The start of a call that registers a route by an object, up to the brace of the object. -/
structure Opening where
  /-- The name of the router. -/
  router : List Char
  /-- The name is not empty. -/
  router_ne_nil : router ≠ []
  /-- It is a name. -/
  router_word : ∀ c ∈ router, isWord c = true
  /-- What stands in front of the parenthesis. -/
  gap : Blanks
  /-- What stands behind it. -/
  indent : Blanks

namespace Opening

variable (o : Opening)

/-- What stands behind the name of the method that is called. -/
def tail : List Char := o.gap.chars ++ '(' :: (o.indent.chars ++ ['{'])

/-- The text of the start. -/
def chars : List Char := o.router ++ '.' :: ("route".toList ++ o.tail)

theorem forall_tail : ∀ c ∈ o.tail, isWord c = false ∧ c ≠ '.' ∧ c ≠ '}' := by
  have hblank : ∀ {w : Blanks}, ∀ c ∈ w.chars, isWord c = false ∧ c ≠ '.' ∧ c ≠ '}' := by
    intro w c hc
    have hc := w.blank c hc
    refine ⟨isWord_eq_false_of_isBlank hc, ?_, ?_⟩ <;> rintro rfl <;> exact absurd hc (by decide)
  rw [tail, List.forall_mem_append, List.forall_mem_cons, List.forall_mem_append,
    List.forall_mem_singleton]
  exact ⟨hblank, by decide, hblank, by decide⟩

theorem not_mem_chars : '}' ∉ o.chars := by
  rw [chars, List.mem_append, List.mem_cons, List.mem_append]
  rintro (h | h | h | h)
  · exact absurd (o.router_word _ h) (by decide)
  · exact absurd h (by decide)
  · exact absurd h (by decide)
  · exact (o.forall_tail _ h).2.2 rfl

/-- The same start with a longer name. -/
def extend (w : List Char) (hw : ∀ c ∈ w, isWord c = true) : Opening :=
  { o with
    router := w ++ o.router
    router_ne_nil := List.append_ne_nil_of_right_ne_nil w o.router_ne_nil
    router_word := List.forall_mem_append.mpr ⟨hw, o.router_word⟩ }

theorem chars_extend (w : List Char) (hw : ∀ c ∈ w, isWord c = true) :
    (o.extend w hw).chars = w ++ o.chars := by
  simp [chars, extend, tail]

end Opening

/-- The text opens the object of a call and does not close it. -/
def LeavesOpen (w : List Char) : Prop := ∃ (o : Opening) (rest : List Char),
  w = o.chars ++ rest ∧ '}' ∉ rest

/-- A call behind the text stands on its own: its name is not part of a longer one, and no object of
another call is open. -/
structure StandsApart (before : List Char) : Prop where
  edge : ∀ c ∈ before.getLast?, isWord c = false
  closed : ∀ w, w <:+ before → ¬ LeavesOpen w

/-- A call that registers a route by an object with a method and a path. -/
structure ObjectCall where
  /-- The text up to the brace of the object. -/
  opening : Opening
  /-- The text between the braces of the object. -/
  body : List Char
  /-- The braces in it are balanced. -/
  body_balanced : Balanced .curly body
  /-- The entry of the method. -/
  method : EntryIn .method body
  /-- The entry of the path. -/
  url : EntryIn .url body
  /-- What stands in front of the last parenthesis. -/
  outdent : Blanks

namespace ObjectCall

variable (c : ObjectCall)

/-- The text of the call. -/
def chars : List Char := c.opening.chars ++ (c.body ++ '}' :: (c.outdent.chars ++ [')']))

/-- The route that the call registers in the file. -/
def route (file : String) : CallRoute :=
  ⟨upperCase (String.ofList c.method.entry.value), String.ofList c.url.entry.value, file, none⟩

/-- The text of a file that holds the call. -/
def content (before after : List Char) : List Char := before ++ (c.chars ++ after)

/-- **The route is registered by the two entries**: a call is found where this one stands, and what
is read of it are its entries. -/
def RegisteredIn (before after : List Char) : Prop :=
  ∃ m ∈ routeObjectCall.findAll (c.content before after), m.start = before.length ∧
    c.method.ReadFrom (m.group 1) ∧ c.url.ReadFrom (m.group 1)

end ObjectCall

/-! ## What the pattern of a call reads -/

section Reading

variable {m : Match} {before : Option Char} {offset : Nat} {t : List Char}

/-- **Where a call starts, the pattern reads up to the first closing brace.** -/
theorem exists_matchHere_opening (o : Opening) {body : List Char} (hbody : '}' ∉ body)
    (hbefore : ∀ c ∈ before, isWord c = false) (offset : Nat) (t : List Char) :
    ∃ m, routeObjectCall.matchHere before offset (o.chars ++ (body ++ '}' :: t)) = some m ∧
      m.start = offset ∧ m.stop = offset + (o.chars ++ (body ++ ['}'])).length ∧
      m.group 1 = body := by
  let start : Cursor := ⟨before, offset, o.chars ++ (body ++ '}' :: t), []⟩
  have hrun : routeObjectCall.matchHere before offset start.rest =
      wordEdge.run start fun e =>
        (Pattern.name ++ lit ".route" ++ blanks ++ char '(' ++ blanks ++ char '{').run e fun f =>
          (star (one (· != '}'))).run f fun g => (char '}').run (g.record 1 f) fun h =>
            some ⟨offset, h.offset, start.rest, h.captures⟩ := rfl
  have hstart : ∃ x ∈ start.rest.head?, isWord x = true := by
    obtain ⟨x, w, hx⟩ := List.exists_cons_of_ne_nil o.router_ne_nil
    exact ⟨x, by simp [start, Opening.chars, hx], o.router_word x (by simp [hx])⟩
  have hhead : (Pattern.name ++ lit ".route" ++ blanks ++ char '(' ++ blanks ++ char '{').Takes
      (o.router ++ ".route".toList ++ o.gap.chars ++ ['('] ++ o.indent.chars ++ ['{'])
      (body ++ '}' :: t) :=
    (((((takes_name o.router_ne_nil o.router_word (forall_head?_cons (by decide))).append
      (takes_lit _)).append (takes_blanks o.gap.blank (forall_head?_cons (by decide)))).append
      (takes_char '(')).append (takes_blanks o.indent.blank (forall_head?_cons (by decide)))).append
      (takes_char '{')
  have hrest : start.rest =
      (o.router ++ ".route".toList ++ o.gap.chars ++ ['('] ++ o.indent.chars ++ ['{']) ++
        (body ++ '}' :: t) := by
    simp [start, Opening.chars, Opening.tail]
  have hinside : (star (one (· != '}'))).Takes body (['}'] ++ t) :=
    takes_loop_one (fun x hx => bne_iff_ne.mpr fun heq => hbody (heq ▸ hx)) (Nat.zero_le _)
      (forall_head?_cons (by decide))
  refine ⟨_, hrun.trans ((run_wordEdge hbefore hstart).trans (hhead _ _ _ _ hrest
    (hinside _ _ _ _ rfl (takes_char '}' _ _ _ _ rfl rfl)))), rfl, ?_, ?_⟩
  · simp [Cursor.record, start, Opening.chars, Opening.tail]
    omega
  · exact Capture.text_eq

/-- What the pattern reads is the start of a call and the text up to the first closing brace. -/
theorem exists_opening_of_matchHere {s : List Char}
    (hm : routeObjectCall.matchHere before offset s = some m) :
    (∀ c ∈ before, isWord c = false) ∧ ∃ (o : Opening) (body t : List Char),
      s = o.chars ++ (body ++ '}' :: t) ∧ '}' ∉ body ∧
        m.stop = offset + (o.chars ++ (body ++ ['}'])).length := by
  obtain ⟨d, hd, rfl⟩ := exists_outcome_of_matchHere hm
  obtain ⟨c₇, hd, hclose⟩ := mem_outcomes_append.mp hd
  obtain ⟨c₆, hd, hbody⟩ := mem_outcomes_append.mp hd
  obtain ⟨c₅, hd, hbrace⟩ := mem_outcomes_append.mp hd
  obtain ⟨c₄, hd, hindent⟩ := mem_outcomes_append.mp hd
  obtain ⟨c₃, hd, hparen⟩ := mem_outcomes_append.mp hd
  obtain ⟨c₂, hd, hgap⟩ := mem_outcomes_append.mp hd
  obtain ⟨c₁, hd, hroute⟩ := mem_outcomes_append.mp hd
  obtain ⟨c₀, hedge, hname⟩ := mem_outcomes_append.mp hd
  obtain ⟨hbetween, rfl⟩ := mem_outcomes_here.mp hedge
  obtain ⟨router, hrouter, hne, hword⟩ := exists_reads_of_mem_plus hname
  obtain ⟨gap, hgap, hgapBlank⟩ := exists_reads_of_mem_blanks hgap
  obtain ⟨indent, hindent, hindentBlank⟩ := exists_reads_of_mem_blanks hindent
  obtain ⟨e, he, rfl⟩ := mem_outcomes_capture.mp hbody
  have hopen : (star (one (· != '}'))).ReadsOnly (fun x => (x != '}') = true) := fun _ h => h
  obtain ⟨body, hbody, hbodyOpen⟩ := exists_reads hopen _ _ he
  let o : Opening := ⟨router, hne, hword, ⟨gap, hgapBlank⟩, ⟨indent, hindentBlank⟩⟩
  have hread := (((((hrouter.trans (reads_of_mem_lit hroute)).trans hgap).trans
    (reads_of_mem_char hparen)).trans hindent).trans (reads_of_mem_char hbrace)).trans
    (hbody.record.trans (reads_of_mem_char hclose))
  have htext : router ++ ".route".toList ++ gap ++ ['('] ++ indent ++ ['{'] ++ (body ++ ['}']) =
      o.chars ++ (body ++ ['}']) := by
    simp [o, Opening.chars, Opening.tail]
  rw [htext] at hread
  have hrest : s = o.chars ++ (body ++ ['}']) ++ d.rest := hread.rest_eq
  refine ⟨fun c hc => ?_, o, body, d.rest, by simpa using hrest, fun h => ?_, hread.offset_eq⟩
  · -- The name begins with a name character, so that none stands in front.
    obtain rfl : before = some c := hc
    obtain ⟨x, w, rfl⟩ := List.exists_cons_of_ne_nil hne
    have hx : isWord x = true := hword x List.mem_cons_self
    have hhead : s.head? = some x := by rw [hrest]; rfl
    simpa [hhead, hx] using hbetween
  · exact absurd (hbodyOpen _ h) (by decide)

end Reading

/-! ## What stands in front of a call -/

section Front

variable {before w t r : List Char}

/-- What two texts have in common is either a part of the first, or they part inside of it. -/
theorem append_eq_append_cases {v s : List Char} (h : w ++ t = v ++ s) :
    (∃ z, w = v ++ z ∧ z ++ t = s) ∨ ∃ x z, v = w ++ x :: z ∧ t = x :: z ++ s := by
  rcases List.append_eq_append_iff.mp h with ⟨z, hv, ht⟩ | ⟨z, hw, hs⟩
  · cases z with
    | nil => exact Or.inl ⟨[], by rw [hv, List.append_nil, List.append_nil], by rw [ht]; rfl⟩
    | cons x z => exact Or.inr ⟨x, z, hv, ht⟩
  · exact Or.inl ⟨z, hw, hs.symm⟩

/-- A call whose name is the word `route` has a dot behind that word. -/
theorem opening_append_ne {o o' : Opening} :
    o'.chars ++ t ≠ "route".toList ++ (o.tail ++ r) := by
  intro h
  obtain ⟨y, tail, htail⟩ : ∃ y tail, o.tail = y :: tail :=
    List.exists_cons_of_ne_nil (by simp [Opening.tail])
  obtain ⟨hword, hdot, -⟩ := o.forall_tail y (by simp [htail])
  rw [Opening.chars, List.append_assoc, List.cons_append, htail, List.cons_append] at h
  have hname := congrArg (List.takeWhile isWord) h
  rw [takeWhile_append o'.router_word (forall_head?_cons (by decide)),
    takeWhile_append (by decide) (forall_head?_cons hword)] at hname
  rw [hname] at h
  exact hdot (List.cons.inj (List.append_cancel_left h)).1.symm

/-- **The start of a call does not reach into another one**: what starts in front of it, and not
inside of its name, stands in front of it as a whole. -/
theorem exists_eq_append_of_opening {o o' : Opening} (hne : w ≠ [])
    (hedge : ∀ c ∈ w.getLast?, isWord c = false) (h : w ++ (o'.chars ++ t) = o.chars ++ r) :
    ∃ z, w = o.chars ++ z ∧ z ++ (o'.chars ++ t) = r := by
  have hlast {v : List Char} (hv : v ≠ []) (hsuffix : v <:+ w) : ∃ c ∈ v, isWord c = false := by
    obtain ⟨u, rfl⟩ := hsuffix
    rw [List.getLast?_append_of_ne_nil _ hv] at hedge
    exact ⟨v.getLast hv, List.getLast_mem hv, hedge _ (List.getLast_mem_getLast? hv)⟩
  obtain ⟨x, name, hname⟩ := List.exists_cons_of_ne_nil o'.router_ne_nil
  have hx : isWord x = true := o'.router_word x (by simp [hname])
  have htext : w ++ (o'.chars ++ t) = o.router ++ '.' :: ("route".toList ++ (o.tail ++ r)) := by
    rw [h]
    simp [Opening.chars]
  -- The name, the dot behind it, the word behind that and the rest, one after the other.
  rcases append_eq_append_cases htext with ⟨w₁, rfl, h₁⟩ | ⟨y, z, hpart, -⟩
  · cases w₁ with
    | nil =>
      obtain ⟨c, hc, hcw⟩ := hlast hne List.suffix_rfl
      rw [List.append_nil] at hc
      rw [o.router_word c hc] at hcw
      cases hcw
    | cons y w₂ =>
      obtain ⟨rfl, h₂⟩ := List.cons.inj h₁
      rcases append_eq_append_cases h₂ with ⟨w₃, rfl, h₃⟩ | ⟨y, z, hpart, hrest⟩
      · rcases append_eq_append_cases h₃ with ⟨w₄, rfl, h₄⟩ | ⟨y, z, hpart, hrest⟩
        · exact ⟨w₄, by simp [Opening.chars], h₄⟩
        · -- The call begins with a name character, which none of these is.
          have hy : isWord y = false := (o.forall_tail y (by simp [hpart])).1
          rw [Opening.chars, hname] at hrest
          obtain rfl : x = y := (List.cons.inj hrest).1
          rw [hx] at hy
          cases hy
      · by_cases hw₂ : w₂ = []
        · subst hw₂
          exact absurd h₂ opening_append_ne
        · obtain ⟨c, hc, hcw⟩ := hlast hw₂ ⟨o.router ++ ['.'], by simp⟩
          have hroute : ∀ c ∈ "route".toList, isWord c = true := by decide
          rw [hroute c (hpart ▸ List.mem_append_left _ hc)] at hcw
          cases hcw
  · obtain ⟨c, hc, hcw⟩ := hlast hne List.suffix_rfl
    rw [o.router_word c (hpart ▸ List.mem_append_left _ hc)] at hcw
    cases hcw

end Front

/-! ## Where a call is found -/

section Found

variable {before after : List Char} {m : Match}

/-- What is taken of an object stands in front of a closing brace. -/
theorem exists_openPart_append (body t : List Char) :
    ∃ r, body ++ '}' :: t = openPart body ++ '}' :: r := by
  have hsplit : openPart body ++ body.dropWhile (· != '}') = body := List.takeWhile_append_dropWhile
  cases hrest : body.dropWhile (· != '}') with
  | nil =>
    rw [hrest, List.append_nil] at hsplit
    exact ⟨t, by rw [hsplit]⟩
  | cons x r =>
    have hx : x = '}' := by
      have hstop := List.head?_dropWhile_not (· != '}') body
      simpa [hrest] using hstop
    refine ⟨r ++ '}' :: t, ?_⟩
    conv_lhs => rw [← hsplit]
    rw [hrest, hx, List.append_assoc, List.cons_append]

/-- A closing brace stands in a text first behind what holds none. -/
theorem length_lt_of_brace {u v s t : List Char} (hv : '}' ∉ v) (hu : '}' ∈ u)
    (h : u ++ s = v ++ '}' :: t) : v.length < u.length := by
  obtain ⟨a, b, rfl, ha⟩ := List.eq_append_cons_of_mem hu
  rw [List.append_assoc, List.cons_append] at h
  obtain ⟨rfl, -⟩ := eq_of_append_cons_eq ha hv h
  simp

theorem exists_matchHere_call (c : ObjectCall) (hedge : ∀ x ∈ before.getLast?, isWord x = false)
    (after : List Char) :
    ∃ m, routeObjectCall.matchHere before.getLast? before.length (c.chars ++ after) = some m ∧
      m.start = before.length ∧ m.group 1 = openPart c.body := by
  obtain ⟨r, hr⟩ := exists_openPart_append c.body (c.outdent.chars ++ [')'] ++ after)
  obtain ⟨m, hm, hstart, -, hgroup⟩ := exists_matchHere_opening c.opening
    (not_mem_openPart c.body) hedge before.length r
  have htext : c.chars ++ after = c.opening.chars ++ (openPart c.body ++ '}' :: r) := by
    rw [← hr]
    simp [ObjectCall.chars]
  exact ⟨m, htext ▸ hm, hstart, hgroup⟩

/-- **A call that stands apart is found.** -/
theorem exists_mem_findAll_call (c : ObjectCall) (hapart : StandsApart before)
    (after : List Char) : ∃ m ∈ routeObjectCall.findAll (c.content before after),
      m.start = before.length ∧ m.group 1 = openPart c.body := by
  obtain ⟨m, hm, hstart, hgroup⟩ := exists_matchHere_call c hapart.edge after
  refine ⟨m, mem_findAll_of_matchHere hm fun v w hsplit hw first hfirst => ?_, hstart, hgroup⟩
  -- A match that starts earlier ends with a brace in front of the call.
  obtain ⟨-, o, body, t, htext, hbody, hstop⟩ := exists_opening_of_matchHere hfirst
  have hlast : ∀ x ∈ w.getLast?, isWord x = false := by
    rw [← List.getLast?_append_of_ne_nil v hw, ← hsplit]
    exact hapart.edge
  rw [ObjectCall.chars, List.append_assoc] at htext
  obtain ⟨z, rfl, hz⟩ := exists_eq_append_of_opening hw hlast htext
  have hclosed : '}' ∈ z := by
    by_contra hopen
    exact hapart.closed _ ⟨v, hsplit.symm⟩ ⟨o, z, rfl, hopen⟩
  have hlength := length_lt_of_brace hbody hclosed hz
  rw [hstop, hsplit]
  simp only [List.length_append, List.length_singleton]
  omega

/-- A call whose object is left open starts at the start of its name. -/
theorem exists_leavesOpen_edge {v w : List Char} (h : LeavesOpen w) :
    ∃ u n, v = u ++ n ∧ (∀ x ∈ u.getLast?, isWord x = false) ∧ LeavesOpen (n ++ w) := by
  obtain ⟨o, rest, rfl, hrest⟩ := h
  have hrun : ∀ x ∈ v.rtakeWhile isWord, isWord x = true := fun x hx => List.mem_rtakeWhile_imp hx
  refine ⟨v.rdropWhile isWord, v.rtakeWhile isWord, (List.rdropWhile_append_rtakeWhile ..).symm,
    fun x hx => ?_, o.extend _ hrun, rest, ?_, hrest⟩
  · obtain ⟨hne, rfl⟩ := List.mem_getLast?_eq_getLast hx
    simpa using List.rdropWhile_last_not isWord v hne
  · rw [Opening.chars_extend, List.append_assoc]

/-- The match of a call whose object is left open reaches beyond it. -/
theorem exists_matchHere_leavesOpen {u w s : List Char} (h : LeavesOpen w) (hs : '}' ∈ s)
    (hedge : ∀ x ∈ u.getLast?, isWord x = false) :
    ∃ m, routeObjectCall.matchHere u.getLast? u.length (w ++ s) = some m ∧
      m.start = u.length ∧ u.length + w.length < m.stop := by
  obtain ⟨o, rest, rfl, hrest⟩ := h
  obtain ⟨front, t, rfl, hfront⟩ := List.eq_append_cons_of_mem hs
  have hbody : '}' ∉ rest ++ front := fun h => (List.mem_append.mp h).elim hrest hfront
  obtain ⟨m, hm, hstart, hstop, -⟩ := exists_matchHere_opening o hbody hedge u.length t
  refine ⟨m, by simpa using hm, hstart, ?_⟩
  rw [hstop]
  simp only [List.length_append, List.length_singleton]
  omega

/-- A match of a call ends with a closing brace. -/
theorem exists_brace_of_mem_findAll {text : List Char} (hm : m ∈ routeObjectCall.findAll text) :
    ∃ a b, text = a ++ '}' :: b ∧ m.stop = a.length + 1 := by
  obtain ⟨u, t, rfl, hfound⟩ := exists_position_of_mem_findAll hm
  obtain ⟨-, o, body, r, rfl, -, hstop⟩ := exists_opening_of_matchHere hfound
  refine ⟨u ++ (o.chars ++ body), r, by simp, ?_⟩
  rw [hstop]
  simp only [List.length_append, List.length_singleton, Nat.add_assoc]

/-- **A call that is found stands apart.** -/
theorem standsApart_of_mem_findAll {c : ObjectCall}
    (hm : m ∈ routeObjectCall.findAll (c.content before after))
    (hstart : m.start = before.length) : StandsApart before := by
  obtain ⟨u, t, hsplit, hfound⟩ := exists_position_of_mem_findAll hm
  have hu : u.length = m.start := by
    obtain ⟨d, -, rfl⟩ := exists_outcome_of_matchHere hfound
    rfl
  obtain ⟨rfl, -⟩ := List.append_inj hsplit.symm (hu.trans hstart)
  refine ⟨(exists_opening_of_matchHere hfound).1, ?_⟩
  -- A call that is left open would be found instead, unless a brace in it ended an earlier match.
  rintro w ⟨v, rfl⟩ hopen
  obtain ⟨v, n, rfl, hedge, hopen⟩ := exists_leavesOpen_edge (v := v) hopen
  have hbrace : '}' ∈ c.chars ++ after := by simp [ObjectCall.chars]
  obtain ⟨m', hm', hstart', hstop'⟩ := exists_matchHere_leavesOpen hopen hbrace hedge
  have hcontent : c.content (v ++ n ++ w) after = v ++ (n ++ w ++ (c.chars ++ after)) := by
    simp [ObjectCall.content]
  have hne : n ++ w ≠ [] := by
    obtain ⟨o, rest, heq, -⟩ := hopen
    rw [heq]
    simp [Opening.chars]
  have hpos := List.length_pos_of_ne_nil hne
  have hlength : (v ++ n ++ w).length = v.length + (n ++ w).length := by
    rw [List.append_assoc, List.length_append]
  obtain ⟨e, he, hbehind, hfront⟩ := exists_mem_findAll_between hm ⟨v, _, hcontent, hm'⟩
    (by omega) (by omega)
  obtain ⟨a, b, hab, hend⟩ := exists_brace_of_mem_findAll he
  rw [hcontent] at hab
  obtain ⟨z, rfl⟩ : v <+: a := List.prefix_of_prefix_length_le ⟨_, hab⟩ ⟨_, rfl⟩ (by omega)
  have hinside := List.append_cancel_left (hab.trans (List.append_assoc _ _ _))
  -- So the brace would stand in what is left open.
  obtain ⟨o, rest, heq, hrest⟩ := hopen
  have hfree : '}' ∉ n ++ w := by
    rw [heq, List.mem_append]
    exact fun h => h.elim o.not_mem_chars hrest
  obtain ⟨y, hy⟩ := exists_eq_append_of_not_mem hfree hinside
  rw [List.length_append, hy, List.length_append] at hend
  omega

/-- **When a route is registered by the entries of a call**, whatever stands around the call: the
call stands apart, and nothing keeps the entries from being read.  Then the route is among those
that the file declares. -/
theorem registeredIn_iff (c : ObjectCall) (before after : List Char) :
    (c.RegisteredIn before after ↔ StandsApart before ∧ c.method.Legible ∧ c.url.Legible) ∧
      ∀ file, c.RegisteredIn before after →
        c.route file ∈ declaredRoutes (c.content before after) file := by
  constructor
  · constructor
    · rintro ⟨m, hm, hstart, hmethod, hurl⟩
      have hapart := standsApart_of_mem_findAll hm hstart
      obtain ⟨m', hm', hstart', hgroup⟩ := exists_mem_findAll_call c hapart after
      obtain rfl : m = m' := StandsIn.eq_of_start_eq (exists_position_of_mem_findAll hm)
        (exists_position_of_mem_findAll hm') (hstart.trans hstart'.symm)
      rw [hgroup, EntryIn.readFrom_iff] at hmethod hurl
      exact ⟨hapart, hmethod, hurl⟩
    · rintro ⟨hapart, hmethod, hurl⟩
      obtain ⟨m, hm, hstart, hgroup⟩ := exists_mem_findAll_call c hapart after
      rw [← EntryIn.readFrom_iff, ← hgroup] at hmethod hurl
      exact ⟨m, hm, hstart, hmethod, hurl⟩
  · rintro file ⟨m, hm, -, ⟨mm, hmm, -, hmethod⟩, ⟨mu, hmu, -, hurl⟩⟩
    refine List.mem_append_right _ (List.mem_filterMap.mpr ⟨m, hm, ?_⟩)
    have hmm : methodEntry.search (m.group 1) = some mm := hmm
    have hmu : urlEntry.search (m.group 1) = some mu := hmu
    rw [objectRoute?, hmm, hmu]
    simp only [Match.name, hmethod, hurl]
    rfl

end Found

/-! ## A call with a schema -/

/-- A call that describes what it expects in front of the method and the path. -/
def schemaFirst : ObjectCall where
  opening := ⟨"fastify".toList, by decide, by decide, .none, .none⟩
  body := " schema: \x7b body: \x7b\x7d \x7d, method: 'POST', url: '/items' ".toList
  body_balanced := balanced_of_depthAfter rfl
  method :=
    { front := " schema: \x7b body: \x7b\x7d \x7d, ".toList
      entry := ⟨none, nofun, (.none, .space), '\'', by decide, "POST".toList, by decide, nofun⟩
      back := ", url: '/items' ".toList
      body_eq := by decide
      front_balanced := balanced_of_depthAfter rfl
      front_ended := by decide }
  url :=
    { front := " schema: \x7b body: \x7b\x7d \x7d, method: 'POST', ".toList
      entry := ⟨none, nofun, (.none, .space), '\'', by decide, "/items".toList, by decide,
        fun _ => rfl⟩
      back := [' ']
      body_eq := by decide
      front_balanced := balanced_of_depthAfter rfl
      front_ended := by decide }
  outdent := .none

/-- **Of a call with an object in front of its entries nothing is registered**: what is taken of it
ends at the first closing brace. -/
theorem braces_cut_short :
    schemaFirst.content [] [] = ("fastify.route(\x7b schema: \x7b body: \x7b\x7d \x7d, " ++
        "method: 'POST', url: '/items' \x7d)").toList ∧
      schemaFirst.route "a.ts" = ⟨"POST", "/items", "a.ts", none⟩ ∧
      openPart schemaFirst.body = " schema: \x7b body: \x7b".toList ∧
      declaredRoutes (schemaFirst.content [] []) "a.ts" = [] :=
  ⟨by decide, by decide, by decide, by decide +kernel⟩

end PlanAudit.Routes
