import PlanAudit.Prisma.Mentions
import PlanAudit.Proofs.Pattern.Choices
import PlanAudit.Proofs.Pattern.Positions
import PlanAudit.Proofs.Prisma.Blocks
import PlanAudit.Proofs.Text.FirstPerKey

/-!
# Clients and calls

A call on a client begins with two names, each with a dot behind it.  Wherever in a text no two such
names follow each other, neither a client nor a call is found; where they do, the first name is the
client and the second is the accessor of a model.  A name holds no dollar sign, so that what is
found of a name that holds one is at most what stands behind it.

## Main definitions

* `Dotted`: a text that begins with two names, each with a dot behind it
* `anchor`: the two names with their dots
* `Apart`: a piece of text in which no call begins, whatever follows

## Main results

* `clientNames_twice`, `modelCalls_twice`: what is found of a call that is written twice
* `nearestAccessor_behind`: the accessor of the last call in front of a position
* `mentions_eq_nil`: a plan in whose code no two names follow each other mentions nothing
-/

namespace PlanAudit.Prisma

open Text Pattern

/-! ## Names with a dot behind them -/

/-- The text is a name and a dot in front of `r`. -/
def DotName (text r : List Char) : Prop := ∃ i : Word, text = i.chars ++ '.' :: r

/-- The text begins with two names, each with a dot behind it. -/
def Dotted (text : List Char) : Prop := ∃ r s, DotName text r ∧ DotName r s

/-- A piece of text without a dot that does not end inside a name. -/
structure Apart (w : List Char) : Prop where
  dotless : '.' ∉ w
  edge : ∃ x, w.getLast? = some x ∧ isWord x = false

section Dotted

variable {w t r : List Char}

theorem DotName.append (h : DotName t r) (s : List Char) : DotName (t ++ s) (r ++ s) := by
  obtain ⟨i, rfl⟩ := h
  exact ⟨i, by rw [List.append_assoc, List.cons_append]⟩

theorem Dotted.append (h : Dotted t) (s : List Char) : Dotted (t ++ s) := by
  obtain ⟨r, r', hr, hr'⟩ := h
  exact ⟨r ++ s, r' ++ s, hr.append s, hr'.append s⟩

theorem not_dotted_nil : ¬ Dotted [] := by
  rintro ⟨r, s, ⟨i, hi⟩, -⟩
  exact absurd hi.symm (by simp)

/-- Behind the first dot stands what the name stands in front of. -/
theorem DotName.eq_of_not_mem (h : DotName (w ++ '.' :: t) r) (hw : '.' ∉ w) : t = r := by
  obtain ⟨i, hi⟩ := h
  have hdot : '.' ∉ i.chars := fun hmem => absurd (i.word _ hmem) (by decide)
  exact (eq_of_append_cons_eq hw hdot hi).2

/-- A character that is not part of a name does not stand in front of the first dot. -/
theorem not_dotName_of_nonword (hw : '.' ∉ w) {x : Char} (hx : x ∈ w) (hword : isWord x = false) :
    ¬ DotName (w ++ t) r := by
  rintro ⟨i, hi⟩
  obtain ⟨z, hz⟩ := exists_eq_append_of_not_mem hw hi
  rw [i.word x (by simp [hz, hx])] at hword
  cases hword

theorem Apart.avoids (h : Apart w) : Avoids Dotted w t := by
  rintro u s hsplit hs ⟨r, r', hr, -⟩
  obtain ⟨x, hlast, hword⟩ := h.edge
  have hdot : '.' ∉ s := fun hmem => h.dotless (by simp [hsplit, hmem])
  rw [hsplit, List.getLast?_append_of_ne_nil u hs] at hlast
  exact not_dotName_of_nonword hdot (List.mem_of_getLast? hlast) hword hr

theorem Apart.last (h : Apart w) (u : List Char) :
    ∃ x, (u ++ w).getLast? = some x ∧ isWord x = false ∧ x ≠ '.' := by
  obtain ⟨x, hx, hword⟩ := h.edge
  refine ⟨x, ?_, hword, fun hdot => h.dotless (hdot ▸ List.mem_of_getLast? hx)⟩
  rw [List.getLast?_append, hx, Option.some_or]

theorem avoids_of_dotless (h : '.' ∉ w) : Avoids Dotted w [] := by
  rintro u s hsplit - ⟨r, r', ⟨i, hi⟩, -⟩
  rw [List.append_nil] at hi
  exact h (by simp [hsplit, hi])

theorem avoids_dot : Avoids Dotted ['.'] t := by
  refine avoids_of_head (S := isWord) ?_ (by decide)
  rintro s ⟨r, r', ⟨i, rfl⟩, -⟩
  obtain ⟨x, rest, hx⟩ := List.exists_cons_of_ne_nil i.ne_nil
  exact ⟨x, rest ++ '.' :: r, by rw [hx, List.cons_append], i.word x (by simp [hx])⟩

/-- No call begins in a word if no name with a dot follows that behind it. -/
theorem avoids_of_not_dotName (hw : '.' ∉ w) (ht : ∀ r, ¬ DotName t r) :
    Avoids Dotted (w ++ ['.']) t := by
  refine Avoids.append ?_ avoids_dot
  rintro u s hsplit - ⟨r, r', hr, hr'⟩
  have hdot : '.' ∉ s := fun hmem => hw (by simp [hsplit, hmem])
  rw [← hr.eq_of_not_mem hdot] at hr'
  exact ht r' hr'

/-- A part of a text in which no call begins is one itself. -/
theorem avoids_of_append {u s : List Char} (h : Avoids Dotted (u ++ (w ++ s)) []) :
    Avoids Dotted w [] := by
  intro v z hsplit hz hdotted
  rw [List.append_nil] at hdotted
  refine h (u ++ v) (z ++ s) (by simp [hsplit]) (by simp [hz]) ?_
  rw [List.append_nil]
  exact hdotted.append s

end Dotted

/-! ## Patterns that begin with two names -/

/-- Every match of the pattern reads a name. -/
def ReadsName (p : Pattern) : Prop := ∀ c d, d ∈ p.outcomes c → ∃ i : Word, c.Reads i.chars d

/-- Texts that are names. -/
def AllNames (texts : List String) : Prop := ∀ s ∈ texts, ∃ i : Word, i.string = s

theorem exists_word_defaultClient : ∃ i : Word, i.string = defaultClient :=
  ⟨⟨defaultClient.toList, by decide, by decide⟩, String.ofList_toList⟩

section Begins

variable {p q : Pattern} {clients : List String}

theorem readsName_name : ReadsName name := by
  intro c d hd
  obtain ⟨w, hw, hne, hword⟩ := exists_reads_of_mem_plus hd
  exact ⟨⟨w, hne, hword⟩, hw⟩

theorem ReadsName.capture (hp : ReadsName p) (index : Nat) : ReadsName (capture index p) := by
  intro c d hd
  obtain ⟨e, he, rfl⟩ := mem_outcomes_capture.mp hd
  exact (hp c e he).imp fun _ h => h.record

theorem ReadsName.behindEdge (hp : ReadsName p) : ReadsName (wordEdge ++ p) := by
  intro c d hd
  obtain ⟨e, hedge, hde⟩ := mem_outcomes_append.mp hd
  obtain ⟨-, rfl⟩ := mem_outcomes_here.mp hedge
  exact hp e d hde

theorem readsName_oneOfTexts (hclients : AllNames clients) : ReadsName (oneOfTexts clients) := by
  intro c d hd
  obtain ⟨s, hs, hread⟩ := exists_reads_of_mem_oneOfTexts hd
  obtain ⟨i, rfl⟩ := hclients s hs
  rw [Word.toList_string] at hread
  exact ⟨i, hread⟩

theorem begins_dotted (hp : ReadsName p) (hq : ReadsName q) :
    Begins Dotted (p ++ char '.' ++ q ++ char '.') := by
  intro c d hd
  obtain ⟨c₃, hd, hdot'⟩ := mem_outcomes_append.mp hd
  obtain ⟨c₂, hd, hsecond⟩ := mem_outcomes_append.mp hd
  obtain ⟨c₁, hfirst, hdot⟩ := mem_outcomes_append.mp hd
  obtain ⟨i, hi⟩ := hp c c₁ hfirst
  obtain ⟨j, hj⟩ := hq c₂ c₃ hsecond
  exact ⟨c₂.rest, d.rest, ⟨i, by rw [hi.rest_eq, (reads_of_mem_char hdot).rest_eq]; rfl⟩,
    ⟨j, by rw [hj.rest_eq, (reads_of_mem_char hdot').rest_eq]; rfl⟩⟩

theorem begins_clientCall : Begins Dotted clientCall :=
  ((begins_dotted (readsName_name.capture 1) readsName_name).append _).append _

theorem begins_modelCall (hclients : AllNames clients) : Begins Dotted (modelCall clients) :=
  (begins_dotted ((readsName_oneOfTexts hclients).capture 1).behindEdge
    (readsName_name.capture 2)).append _

theorem begins_callStart (hclients : AllNames clients) : Begins Dotted (callStart clients) :=
  begins_dotted (readsName_oneOfTexts hclients).behindEdge (readsName_name.capture 1)

end Begins

/-! ## Calls -/

/-- The client and the accessor with their dots. -/
def anchor (client accessor : Word) : List Char :=
  client.chars ++ '.' :: (accessor.chars ++ ['.'])

section Calls

variable {q a : Word} {clients : List String} {method : String} {t : List Char}

theorem isWord_of_mem_clientMethods : ∀ r ∈ clientMethods, r.toList ≠ [] ∧
    ∀ x ∈ r.toList, isWord x = true := by
  decide +kernel

theorem anchor_append (t : List Char) :
    anchor q a ++ t = q.chars ++ '.' :: (a.chars ++ '.' :: t) := by
  simp [anchor]

theorem exists_matchHere_clientCall (q a : Word) (hmethod : method ∈ clientMethods)
    (ht : ∀ x ∈ t.head?, isWord x = false) (before : Option Char) (offset : Nat) :
    ∃ m, clientCall.matchHere before offset ((anchor q a ++ method.toList) ++ t) = some m ∧
      m.stop = offset + (anchor q a ++ method.toList).length ∧ m.name 1 = q.string := by
  rw [List.append_assoc, anchor_append]
  let start : Cursor :=
    ⟨before, offset, q.chars ++ '.' :: (a.chars ++ '.' :: (method.toList ++ t)), []⟩
  have hrun : clientCall.matchHere before offset start.rest =
      name.run start fun e => (char '.' ++ name ++ char '.').run (e.record 1 start) fun f =>
        (oneOfTexts clientMethods ++ wordEdge).run f fun g =>
          some ⟨offset, g.offset, start.rest, g.captures⟩ := rfl
  have hclient : name.Takes q.chars ('.' :: (a.chars ++ '.' :: (method.toList ++ t))) :=
    takes_word q (forall_head?_cons (by decide))
  have haccessor : (char '.' ++ name ++ char '.').Takes ('.' :: a.chars ++ ['.'])
      (method.toList ++ t) :=
    ((takes_char '.').append (takes_word a (forall_head?_cons (by decide)))).append
      (takes_char '.')
  have hmethod := takes_oneOfTexts_wordEdge isWord_of_mem_clientMethods hmethod ht
  refine ⟨_, hrun.trans (hclient _ _ _ _ rfl (haccessor _ _ _ _ (by simp [Cursor.record])
    (hmethod _ _ _ _ rfl rfl))), ?_, congrArg String.ofList Capture.text_eq⟩
  simp [Cursor.record, start, anchor]
  omega

/-- The first of the clients is tried first. -/
theorem takes_client (q : Word) (clients : List String) :
    (oneOfTexts (q.string :: clients)).Takes q.chars t := by
  have htakes : (oneOfTexts (q.string :: clients)).Takes q.string.toList t := takes_oneOfTexts_head
  rwa [Word.toList_string] at htakes

theorem exists_matchHere_modelCall (q a : Word) (clients : List String)
    (hmethod : method ∈ clientMethods) (ht : ∀ x ∈ t.head?, isWord x = false)
    {before : Option Char} (hbefore : ∀ x ∈ before, isWord x = false) (offset : Nat) :
    ∃ m, (modelCall (q.string :: clients)).matchHere before offset
        ((anchor q a ++ method.toList) ++ t) = some m ∧
      m.stop = offset + (anchor q a ++ method.toList).length ∧
      (m.name 1, m.name 2, m.name 3) = (q.string, a.string, method) := by
  rw [List.append_assoc, anchor_append]
  let start : Cursor :=
    ⟨before, offset, q.chars ++ '.' :: (a.chars ++ '.' :: (method.toList ++ t)), []⟩
  have hrun : (modelCall (q.string :: clients)).matchHere before offset start.rest =
      wordEdge.run start fun d => (oneOfTexts (q.string :: clients)).run d fun e =>
        (char '.').run (e.record 1 d) fun f => name.run f fun g =>
          (char '.').run (g.record 2 f) fun h => name.run h fun i =>
            some ⟨offset, i.offset, start.rest, (i.record 3 h).captures⟩ := rfl
  have hclient := takes_client q clients (t := '.' :: (a.chars ++ '.' :: (method.toList ++ t)))
  have haccessor : name.Takes a.chars ('.' :: (method.toList ++ t)) :=
    takes_word a (forall_head?_cons (by decide))
  have hword := isWord_of_mem_clientMethods method hmethod
  have hmethod : name.Takes method.toList t := takes_name hword.1 hword.2 ht
  have hstart : ∃ x ∈ start.rest.head?, isWord x = true := by
    obtain ⟨x, r, hx⟩ := List.exists_cons_of_ne_nil q.ne_nil
    exact ⟨x, by simp [start, hx], q.word x (by simp [hx])⟩
  rw [show before = start.before from rfl] at hbefore
  refine ⟨_, hrun.trans ((run_wordEdge hbefore hstart).trans (hclient _ _ _ _ rfl
    (takes_char '.' _ _ _ _ rfl (haccessor _ _ _ _ rfl (takes_char '.' _ _ _ _ rfl
      (hmethod _ _ _ _ rfl rfl)))))), ?_, ?_⟩
  · simp [Cursor.record, start, anchor]
    omega
  · refine Prod.ext (congrArg String.ofList Capture.text_eq)
      (Prod.ext (congrArg String.ofList Capture.text_eq) ?_)
    exact (congrArg String.ofList Capture.text_eq).trans String.ofList_toList

theorem exists_matchHere_callStart (q a : Word) (clients : List String)
    {before : Option Char} (hbefore : ∀ x ∈ before, isWord x = false) (offset : Nat) :
    ∃ m, (callStart (q.string :: clients)).matchHere before offset (anchor q a ++ t) = some m ∧
      m.stop = offset + (anchor q a).length ∧ m.name 1 = a.string := by
  rw [anchor_append]
  let start : Cursor := ⟨before, offset, q.chars ++ '.' :: (a.chars ++ '.' :: t), []⟩
  have hrun : (callStart (q.string :: clients)).matchHere before offset start.rest =
      wordEdge.run start fun d => (oneOfTexts (q.string :: clients)).run d fun e =>
        (char '.').run e fun f => name.run f fun g => (char '.').run (g.record 1 f) fun h =>
          some ⟨offset, h.offset, start.rest, h.captures⟩ := rfl
  have hclient := takes_client q clients (t := '.' :: (a.chars ++ '.' :: t))
  have haccessor : name.Takes a.chars ('.' :: t) :=
    takes_word a (forall_head?_cons (by decide))
  have hstart : ∃ x ∈ start.rest.head?, isWord x = true := by
    obtain ⟨x, r, hx⟩ := List.exists_cons_of_ne_nil q.ne_nil
    exact ⟨x, by simp [start, hx], q.word x (by simp [hx])⟩
  rw [show before = start.before from rfl] at hbefore
  refine ⟨_, hrun.trans ((run_wordEdge hbefore hstart).trans (hclient _ _ _ _ rfl
    (takes_char '.' _ _ _ _ rfl (haccessor _ _ _ _ rfl (takes_char '.' _ _ _ _ rfl rfl))))), ?_,
    congrArg String.ofList Capture.text_eq⟩
  simp [Cursor.record, start, anchor]
  omega

end Calls

/-! ## A call that is written twice -/

/-- A text with a call that is written twice. -/
def twice (call w g h : List Char) : List Char := w ++ (call ++ (g ++ (call ++ h)))

/-- What stands around the two calls holds no dot and no part of a name beside them. -/
structure Around (w g h : List Char) : Prop where
  front : Apart w
  between : Apart g
  behind : '.' ∉ h
  heads : ∀ v, v = g ∨ v = h → ∀ x ∈ v.head?, isWord x = false

section Twice

variable {q a : Word} {method : String} {w g h : List Char}

theorem map_findAll_twice {α : Type} {p : Pattern} {read : Match → α} {found : α}
    {call : List Char} (hp : Begins Dotted p) (haround : Around w g h) (hne : call ≠ [])
    (hm : ∀ t, (∀ x ∈ t.head?, isWord x = false) → ∀ before : Option Char,
      (∀ x ∈ before, isWord x = false) → ∀ offset, ∃ m,
        p.matchHere before offset (call ++ t) = some m ∧ m.stop = offset + call.length ∧
          read m = found) :
    (p.findAll (twice call w g h)).map read = [found, found] := by
  have hbehind : ∀ {v : List Char}, Apart v → ∀ before : Option Char,
      ∀ x ∈ v.getLast?.or before, isWord x = false := by
    intro v hv before x hx
    obtain ⟨y, hy, hword⟩ := hv.edge
    rw [hy, Option.some_or] at hx
    exact Option.some.inj hx ▸ hword
  have hhead : ∀ x ∈ (g ++ (call ++ h)).head?, isWord x = false := by
    obtain ⟨y, hy, -⟩ := haround.between.edge
    have hne : g ≠ [] := List.ne_nil_of_mem (List.mem_of_getLast? hy)
    rw [List.head?_append_of_ne_nil g hne]
    exact haround.heads g (Or.inl rfl)
  have hend : p.Finds read h [] := fun before offset => by
    rw [hp.findScan_eq_nil not_dotted_nil (avoids_of_dotless haround.behind)]
    rfl
  have hsecond : p.Finds read (g ++ (call ++ h)) [found] :=
    hend.cons_behind (fun _ => hp.quiet haround.between.avoids) hne fun before =>
      hm h (haround.heads h (Or.inr rfl)) _ (hbehind haround.between before)
  have hfirst : p.Finds read (twice call w g h) [found, found] :=
    hsecond.cons_behind (fun _ => hp.quiet haround.front.avoids) hne fun before =>
      hm _ hhead _ (hbehind haround.front before)
  exact hfirst none 0

theorem anchor_ne_nil {t : List Char} : anchor q a ++ t ≠ [] := by simp [anchor]

/-- **The clients** are the one on which the method is called and, perhaps, the conventional one. -/
theorem clientNames_twice (haround : Around w g h) (hmethod : method ∈ clientMethods) :
    ∃ rest, clientNames (twice (anchor q a ++ method.toList) w g h) = q.string :: rest ∧
      AllNames (q.string :: rest) := by
  have hfound : (clientCall.findAll (twice (anchor q a ++ method.toList) w g h)).map
      (Match.name · 1) = [q.string, q.string] :=
    map_findAll_twice begins_clientCall haround anchor_ne_nil fun _ ht before _ offset =>
      exists_matchHere_clientCall q a hmethod ht before offset
  obtain ⟨rest, hrest⟩ :
      ∃ rest, clientNames (twice (anchor q a ++ method.toList) w g h) = q.string :: rest := by
    rw [clientNames, hfound]
    exact ⟨_, rfl⟩
  refine ⟨rest, hrest, fun s hs => ?_⟩
  rw [← hrest, clientNames, mem_firstPerKey_id, hfound] at hs
  have hs : s = q.string ∨ s = defaultClient := by simpa using hs
  rcases hs with rfl | rfl
  · exact ⟨q, rfl⟩
  · exact exists_word_defaultClient

/-- **The calls**: each has the client, the accessor and the method that are written. -/
theorem modelCalls_twice {clients : List String} (hclients : AllNames (q.string :: clients))
    (haround : Around w g h) (hmethod : method ∈ clientMethods) :
    ((modelCall (q.string :: clients)).findAll (twice (anchor q a ++ method.toList) w g h)).map
        (fun m => (m.name 1, m.name 2, m.name 3)) =
      [(q.string, a.string, method), (q.string, a.string, method)] :=
  map_findAll_twice (begins_modelCall hclients) haround anchor_ne_nil
    fun _ ht _ hbefore offset =>
      exists_matchHere_modelCall q a clients hmethod ht hbefore offset

end Twice

/-! ## The call around a position -/

section Nearest

variable {q a : Word} {clients : List String} {w v s : List Char}

theorem readsOnly_callStart {x : Char} (hclients : AllNames clients) (hword : isWord x = false)
    (hdot : x ≠ '.') : (callStart clients).ReadsOnly (· ≠ x) := by
  have hname : ∀ y, isWord y = true → y ≠ x := by
    rintro y hy rfl
    rw [hy] at hword
    cases hword
  have hchar : (char '.').ReadsOnly (· ≠ x) := fun y hy => by
    rw [beq_iff_eq.mp hy]
    exact hdot.symm
  refine ⟨⟨⟨⟨trivial, readsOnly_oneOfTexts fun s hs y hy => ?_⟩, hchar⟩, hname⟩, hchar⟩
  obtain ⟨i, rfl⟩ := hclients s hs
  rw [Word.toList_string] at hy
  exact hname y (i.word y hy)

/-- **The accessor of the last call in front of a position** is found unless more than one brace is
open at the position: calls in front of it end there, and none begins behind it. -/
theorem nearestAccessor_behind (hclients : AllNames (q.string :: clients))
    (hw : ∃ x, w.getLast? = some x ∧ isWord x = false ∧ x ≠ '.') (hv : '.' ∉ v)
    (hshort : (anchor q a ++ v).length ≤ lookback) :
    nearestAccessor (q.string :: clients) ((w ++ (anchor q a ++ v)) ++ s)
        (w ++ (anchor q a ++ v)).length =
      if braceBalance v > 1 then none else some a.string := by
  obtain ⟨n, hn⟩ : ∃ n, (w ++ (anchor q a ++ v)).length - lookback = n := ⟨_, rfl⟩
  obtain ⟨front, hfront⟩ : ∃ front, w.drop n = front := ⟨_, rfl⟩
  have hslice : slice ((w ++ (anchor q a ++ v)) ++ s) n (w ++ (anchor q a ++ v)).length =
      front ++ (anchor q a ++ v) := by
    have hle : n ≤ w.length := by
      rw [List.length_append] at hn
      omega
    rw [slice, List.take_left, List.drop_append_of_le_length hle, hfront]
  have hlast : ∀ x ∈ front.getLast?, isWord x = false ∧ x ≠ '.' := by
    obtain ⟨y, hy, hword, hdot⟩ := hw
    intro x hx
    rw [← hfront, List.getLast?_drop] at hx
    split at hx
    · cases hx
    · rw [hy] at hx
      exact Option.some.inj hx ▸ ⟨hword, hdot⟩
  obtain ⟨m, hm, hstop, hname⟩ := exists_matchHere_callStart (t := v) q a clients
    (fun x hx => (hlast x hx).1) front.length
  obtain ⟨ms, hms⟩ : ∃ ms, (callStart (q.string :: clients)).findScan 0 none 0
      (front ++ (anchor q a ++ v)) = ms ++ (callStart (q.string :: clients)).findScan 0
        (front.getLast?.or none) (0 + front.length) (anchor q a ++ v) := by
    refine exists_findScan_append (fun u z hsplit hz first hfirst => ?_) (Nat.zero_le _)
    obtain ⟨d, hd, rfl⟩ := exists_outcome_of_matchHere hfirst
    obtain ⟨x, hx⟩ := Option.isSome_iff_exists.mp (List.getLast?_isSome.mpr hz)
    obtain ⟨hword, hdot⟩ := hlast x (by rw [hsplit, List.getLast?_append_of_ne_nil u hz]; exact hx)
    have hlt := add_lt_of_readsOnly (readsOnly_callStart hclients hword hdot) hd rfl
      (List.mem_of_getLast? hx)
    rw [hsplit, List.length_append]
    simp only at hlt ⊢
    omega
  have hfound : (callStart (q.string :: clients)).findAll (front ++ (anchor q a ++ v)) =
      ms ++ [m] := by
    rw [Option.or_none, Nat.zero_add, findScan_append_of_matchHere (by simp [anchor]) hm hstop,
      (begins_callStart hclients).findScan_eq_nil not_dotted_nil (avoids_of_dotless hv)] at hms
    exact hms
  have hdrop : (front ++ (anchor q a ++ v)).drop m.stop = v := by
    rw [hstop, ← List.append_assoc, ← List.length_append, List.drop_left]
  unfold nearestAccessor
  rw [hn, hslice]
  dsimp only
  rw [hfound, List.getLast?_concat]
  dsimp only
  rw [hdrop, hname]

end Nearest

/-! ## Plans without a call -/

section Without

variable {code : List Char}

theorem findAll_eq_nil {p : Pattern} (hp : Begins Dotted p) (h : Avoids Dotted code []) :
    p.findAll code = [] :=
  hp.findScan_eq_nil not_dotted_nil h

theorem nearestAccessor_eq_none {clients : List String} (hclients : AllNames clients)
    (h : Avoids Dotted code []) (position : Nat) :
    nearestAccessor clients code position = none := by
  have hpart : Avoids Dotted (slice code (position - lookback) position) [] := by
    refine avoids_of_append (u := (code.take position).take (position - lookback))
      (s := code.drop position) ?_
    rwa [slice, ← List.append_assoc, List.take_append_drop, List.take_append_drop]
  unfold nearestAccessor
  dsimp only
  rw [findAll_eq_nil (begins_callStart hclients) hpart]
  rfl

/-- **A plan in whose code no two names with dots follow each other** mentions nothing. -/
theorem mentions_eq_nil {plan : List Char} (h : Avoids Dotted (Plan.codeRegions plan) []) :
    mentions plan = [] := by
  have hclients : clientNames (Plan.codeRegions plan) = [defaultClient] := by
    rw [clientNames, findAll_eq_nil begins_clientCall h]
    rfl
  have hnames : AllNames [defaultClient] := fun s hs => by
    obtain rfl := List.mem_singleton.mp hs
    exact exists_word_defaultClient
  have hblocks : ∀ block counts mention,
      blockMentions block counts mention [defaultClient] (Plan.codeRegions plan) = [] := by
    intro block counts mention
    refine List.flatMap_eq_nil_iff.mpr fun m _ => ?_
    rw [nearestAccessor_eq_none hnames h]
  unfold mentions
  dsimp only
  rw [hclients, hblocks, hblocks, findAll_eq_nil (begins_modelCall hnames) h]
  rfl

end Without

end PlanAudit.Prisma
