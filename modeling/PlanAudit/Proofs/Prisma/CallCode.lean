import PlanAudit.Proofs.Prisma.Anchors
import PlanAudit.Proofs.Prisma.QueryBlocks

/-!
# Code with one call on a client

Code in which one call stands twice, in front of and below the end of a block, has two places at
which a client is found, and twice as many blocks as the call.  Which of the blocks count is decided
by the call in front of them and the braces that are open behind it: of either copy the objects
directly under a key of the argument, and none that is nested in one of them.

## Main definitions

* `CallCode`: the call and what stands around its copies
* `callSubjects`: what a call is about

## Main results

* `CallCode.nearestAccessor_eq`: the call around a position in the argument
* `CallCode.mem_block`, `CallCode.exists_block`: the blocks that count
-/

namespace PlanAudit.Prisma

open Text Pattern

/-! ## What a call is about -/

/-- What a mention is about, apart from its wording and its position. -/
def subject (m : Mention) : Kind × Option String × Option String := (m.kind, m.owner, m.name)

/-- What a call is about: the model, the method, the fields and the relations. -/
def callSubjects (accessor method : String) (argument : Members) :
    List (Kind × Option String × Option String) :=
  (.model, some accessor, none) :: (.method, some accessor, some method) ::
    (argument.fieldKeys.map fun k => (.field, some accessor, some k)) ++
      argument.relationKeys.map fun k => (.relation, some accessor, some k)

/-! ## The call and its copies -/

/-- The start of the argument of a call. -/
def openArgument (method : String) : List Char := method.toList ++ ['(', '{']

theorem dotless_openArgument {method : String} (hmethod : method ∈ clientMethods) :
    '.' ∉ openArgument method := by
  have hword := (isWord_of_mem_clientMethods method hmethod).2
  have hdot : '.' ∉ method.toList := fun h => absurd (hword _ h) (by decide)
  simp [openArgument, hdot]

/-- What stands in front of a call. -/
structure Margin (w : List Char) : Prop extends Apart w where
  colonless : ':' ∉ w

/-- A call and what stands around its copies. -/
structure CallCode where
  /-- The client, as far as it is a name. -/
  client : Word
  /-- The accessor of the model. -/
  accessor : Word
  /-- The method. -/
  method : String
  method_mem : method ∈ clientMethods
  /-- The argument. -/
  argument : Members
  keys : ∀ k ∈ argument.names, k ∈ argumentKeys
  short : (anchor client accessor ++ (openArgument method ++ argument.chars)).length ≤ lookback
  /-- What stands in front of the first copy. -/
  front : List Char
  front_margin : Margin front
  /-- What stands between the copies. -/
  between : List Char
  between_margin : Margin between

namespace CallCode

variable (c : CallCode) {clients : List String} {x z behind front : List Char}

/-- The client and the accessor with their dots. -/
def anchor : List Char := Prisma.anchor c.client c.accessor

/-- The code. -/
def chars : List Char :=
  c.front ++ (c.anchor ++ (openArgument c.method ++ (c.argument.chars ++ '}' :: ')' ::
    (c.between ++ (c.anchor ++ (openArgument c.method ++ (c.argument.chars ++
      ['}', ')', '\n'])))))))

/-- One of the copies stands behind `front` and in front of `behind`. -/
structure Occurs (front behind : List Char) : Prop where
  chars_eq : c.chars = front ++ (c.anchor ++ (openArgument c.method ++
    (c.argument.chars ++ '}' :: behind)))
  last : ∃ x, front.getLast? = some x ∧ isWord x = false ∧ x ≠ '.'

theorem occurs_first : c.Occurs c.front (')' :: (c.between ++ (c.anchor ++
    (openArgument c.method ++ (c.argument.chars ++ ['}', ')', '\n']))))) where
  chars_eq := rfl
  last := c.front_margin.last []

theorem occurs_second : c.Occurs (c.front ++ (c.anchor ++ (openArgument c.method ++
    (c.argument.chars ++ '}' :: ')' :: c.between)))) [')', '\n'] where
  chars_eq := by simp [chars]
  last := by
    have hlast := c.between_margin.last (c.front ++ (c.anchor ++
      (openArgument c.method ++ (c.argument.chars ++ ['}', ')']))))
    simpa using hlast

/-! ## The call around a position -/

theorem dotless_argument : '.' ∉ c.argument.chars :=
  c.argument.not_mem_chars (by decide) (by decide)

theorem braceBalance_openArgument (x : List Char) :
    braceBalance (openArgument c.method ++ x) = braceBalance x + 1 := by
  have hword := (isWord_of_mem_clientMethods c.method c.method_mem).2
  have hfree : ∀ b, isWord b = false → b ≠ '(' → b ∉ c.method.toList ++ ['('] := by
    intro b hb hparen h
    rcases List.mem_append.mp h with h | h
    · rw [hword b h] at hb
      cases hb
    · exact hparen (List.mem_singleton.mp h)
  have hsplit : openArgument c.method ++ x = (c.method.toList ++ ['(']) ++ '{' :: x := by
    simp [openArgument]
  rw [hsplit, braceBalance_append, braceBalance_opener,
    braceBalance_eq_zero ⟨hfree _ (by decide) (by decide), hfree _ (by decide) (by decide)⟩,
    Int.zero_add]

/-- **The call around a position in the argument** is its own, unless a brace is open there. -/
theorem nearestAccessor_eq (hclients : AllNames (c.client.string :: clients))
    (hocc : c.Occurs front behind) (hsplit : c.argument.chars = x ++ z) :
    nearestAccessor (c.client.string :: clients) c.chars
        (front ++ (c.anchor ++ (openArgument c.method ++ x))).length =
      if braceBalance x > 0 then none else some c.accessor.string := by
  have hdot : '.' ∉ openArgument c.method ++ x := by
    intro h
    rcases List.mem_append.mp h with h | h
    · exact dotless_openArgument c.method_mem h
    · exact c.dotless_argument (hsplit ▸ List.mem_append_left z h)
  have hlength : (c.anchor ++ (openArgument c.method ++ x)).length ≤ lookback := by
    have hshort := c.short
    rw [hsplit] at hshort
    simp only [List.length_append] at hshort ⊢
    exact Nat.le_trans (by simp only [anchor]; omega) hshort
  have hread := nearestAccessor_behind (s := z ++ '}' :: behind) hclients hocc.last hdot hlength
  rw [c.braceBalance_openArgument] at hread
  have hchars : c.chars = (front ++ (c.anchor ++ (openArgument c.method ++ x))) ++
      (z ++ '}' :: behind) := by
    rw [hocc.chars_eq, hsplit]
    simp
  rw [hchars]
  refine hread.trans ?_
  by_cases hopen : braceBalance x > 0
  · rw [if_pos hopen, if_pos (by omega)]
  · rw [if_neg hopen, if_neg (by omega)]

/-! ## The blocks that count -/

section Blocks

variable {ks : BlockKeys} {m : Match}

/-- The keys that are read from `stop` on are those of an object directly under one of the keys. -/
def HasKeys (ks : BlockKeys) (stop : Nat) : Prop :=
  ∃ k inner, (k, Value.object inner) ∈ c.argument.members ∧ k.string ∈ ks.names ∧
    topLevelKeys c.chars stop = inner.names

theorem hasKeys_of_hasBlock {stop : Nat} (h : c.argument.HasBlock ks (c.chars.drop stop)) :
    c.HasKeys ks stop := by
  obtain ⟨k, inner, hmem, ⟨s, hs, hsuffix⟩, t, ht⟩ := h
  have hkey : k.string ∈ argumentKeys := c.keys _ (List.mem_map.mpr ⟨_, hmem, rfl⟩)
  have hsame : k.string = s := ks.whole _ hkey s hs (by
    rwa [KeyName.string, String.toList_ofList])
  exact ⟨k, inner, hmem, hsame ▸ hs, topLevelKeys_members inner ht⟩

/-- A block that counts begins behind the argument or is an object directly under a key of it. -/
theorem behind_or_hasKeys (hclients : AllNames (c.client.string :: clients))
    (hocc : c.Occurs front behind) {y : List Char}
    (hsplit : c.argument.chars ++ '}' :: behind = x ++ y) {stop : Nat}
    (hat : BlockAt ks y (c.chars.drop stop)) {found : String}
    (hnear : nearestAccessor (c.client.string :: clients) c.chars
      (front ++ (c.anchor ++ (openArgument c.method ++ x))).length = some found) :
    (∃ z, x = c.argument.chars ++ z ∧ '}' :: behind = z ++ y) ∨
      found = c.accessor.string ∧ c.HasKeys ks stop := by
  rcases List.append_eq_append_iff.mp hsplit with hbehind | ⟨z, hz, -⟩
  · exact Or.inl hbehind
  rw [c.nearestAccessor_eq hclients hocc hz] at hnear
  split at hnear
  · cases hnear
  · rename_i hopen
    refine (c.argument.site hsplit hat (Int.not_lt.mp hopen)).imp_right fun hblock => ?_
    exact ⟨(Option.some.inj hnear).symm, c.hasKeys_of_hasBlock hblock⟩

/-- No block begins in front of the argument. -/
theorem avoids_block_front {w t : List Char} (hw : ':' ∉ w) :
    Avoids (fun t => ∃ r, BlockAt ks t r) (w ++ (c.anchor ++ openArgument c.method)) t := by
  have hword := (isWord_of_mem_clientMethods c.method c.method_mem).2
  have hcolon : ':' ∉ c.client.chars ∧ ':' ∉ c.accessor.chars ∧ ':' ∉ c.method.toList :=
    ⟨fun h => absurd (c.client.word _ h) (by decide),
      fun h => absurd (c.accessor.word _ h) (by decide), fun h => absurd (hword _ h) (by decide)⟩
  refine avoids_block_of_last (x := '{') ?_ (by simp [openArgument, List.getLast?_append])
    (by decide) (by decide)
  simp [hw, anchor, Prisma.anchor, openArgument, hcolon]

/-- **A block that counts** is an object directly under a key of the argument. -/
theorem mem_block (hclients : AllNames (c.client.string :: clients))
    (hm : m ∈ ks.pattern.findAll c.chars) {found : String}
    (hnear : nearestAccessor (c.client.string :: clients) c.chars m.start = some found) :
    found = c.accessor.string ∧ c.HasKeys ks m.stop := by
  obtain ⟨u, y, hchars, hstart, hat⟩ := exists_position_of_mem_findAll_block hm
  rw [hstart] at hnear
  -- The block begins in the first argument, in the second one or behind them.
  have hfirst : (c.front ++ (c.anchor ++ openArgument c.method)) ++ (c.argument.chars ++
      '}' :: ')' :: (c.between ++ (c.anchor ++ (openArgument c.method ++ (c.argument.chars ++
        ['}', ')', '\n']))))) = u ++ y := by
    rw [← hchars]
    simp [chars]
  obtain ⟨x, rfl, hx⟩ := (c.avoids_block_front c.front_margin.colonless).pass hfirst ⟨_, hat⟩
  rcases c.behind_or_hasKeys hclients c.occurs_first hx hat (by simpa using hnear) with
    ⟨z, rfl, hz⟩ | hfound
  · have hcolon : ':' ∉ '}' :: ')' :: c.between := by simp [c.between_margin.colonless]
    have hsecond : (('}' :: ')' :: c.between) ++ (c.anchor ++ openArgument c.method)) ++
        (c.argument.chars ++ ['}', ')', '\n']) = z ++ y := by
      rw [← hz]
      simp
    obtain ⟨x₂, rfl, hx₂⟩ := (c.avoids_block_front hcolon).pass hsecond ⟨_, hat⟩
    rcases c.behind_or_hasKeys hclients c.occurs_second hx₂ hat (by simpa using hnear) with
      ⟨z₂, rfl, hz₂⟩ | hfound
    · have hend : Avoids (fun t => ∃ r, BlockAt ks t r) ['}', ')', '\n'] [] :=
        avoids_block_of_letterless (by decide)
      obtain ⟨v, -, hv⟩ := hend.pass ((List.append_nil _).trans hz₂) ⟨_, hat⟩
      obtain ⟨letter, rest, hy, -⟩ := hat.head
      rw [hy] at hv
      exact absurd hv (by simp)
    · exact hfound
  · exact hfound

/-- **Every object directly under one of the keys** is a block that counts. -/
theorem exists_block (hclients : AllNames (c.client.string :: clients)) {k : KeyName}
    {inner : Members} (hmem : (k, Value.object inner) ∈ c.argument.members)
    (hk : k.string ∈ ks.names) :
    ∃ m ∈ ks.pattern.findAll c.chars,
      nearestAccessor (c.client.string :: clients) c.chars m.start = some c.accessor.string ∧
        topLevelKeys c.chars m.stop = inner.names := by
  obtain ⟨before, indent, g, v, t, hsplit, hlast, hbalance⟩ := c.argument.exists_site hmem
  obtain ⟨z, hz⟩ : ∃ z, z = k.chars ++ (g.chars ++ ':' :: (v.chars ++ '{' ::
      (inner.chars ++ '}' :: t))) := ⟨_, rfl⟩
  rw [← hz] at hsplit
  let behind := ')' :: (c.between ++ (c.anchor ++ (openArgument c.method ++
    (c.argument.chars ++ ['}', ')', '\n']))))
  let front := c.front ++ (c.anchor ++ (openArgument c.method ++ before))
  have hat : BlockAt ks (z ++ '}' :: behind) (inner.chars ++ '}' :: (t ++ '}' :: behind)) :=
    ⟨k.string, hk, g.chars, v.chars, g.blank, v.blank, by
      simp [hz, KeyName.string]⟩
  have hmark : ∃ x, front.getLast? = some x ∧ (x = '{' ∨ x = ',') := by
    cases hbefore : before.getLast? with
    | none =>
      have hopen : (openArgument c.method).getLast? = some '{' := by
        simp [openArgument, List.getLast?_append]
      exact ⟨'{', by simp [front, List.getLast?_append, hbefore, hopen], Or.inl rfl⟩
    | some x =>
      exact ⟨x, by simp [front, List.getLast?_append, hbefore], Or.inr (hlast x hbefore)⟩
  obtain ⟨x, hx, hmark⟩ := hmark
  obtain ⟨m, hm, hstart, hstop⟩ := exists_mem_findAll_block hx hmark indent.blank hat
  have hchars : c.chars = (front ++ indent.chars) ++ (z ++ '}' :: behind) := by
    simp [chars, front, hsplit, behind]
  rw [← hchars] at hm hstop
  refine ⟨m, hm, ?_, topLevelKeys_members inner hstop⟩
  have hopen : braceBalance (before ++ indent.chars) = 0 := by
    rw [braceBalance_append, hbalance,
      (compositional_nested.plain _ (isPlain_of_mem_spacing indent)).total]
    rfl
  have hnear := c.nearestAccessor_eq hclients c.occurs_first (x := before ++ indent.chars) (z := z)
    (by rw [hsplit, List.append_assoc])
  rw [hopen, if_neg (by decide)] at hnear
  rw [hstart, ← hnear]
  simp [front]

end Blocks

/-! ## What is mentioned -/

section Mentions

variable {counts : String → Bool} {mention : Nat → String → String → Mention} {ks : BlockKeys}

theorem mem_blockMentions (hclients : AllNames (c.client.string :: clients)) {found : Mention}
    (h : found ∈ blockMentions ks.pattern counts mention (c.client.string :: clients) c.chars) :
    ∃ n, ∃ k ∈ (c.argument.under ks.names).filter counts,
      found = mention n c.accessor.string k := by
  obtain ⟨m, hm, hfound⟩ := List.mem_flatMap.mp h
  split at hfound
  · rename_i accessor hnear
    obtain ⟨rfl, key, inner, hmem, hkey, hkeys⟩ := c.mem_block hclients hm hnear
    rw [hkeys] at hfound
    obtain ⟨k, hk, rfl⟩ := List.mem_map.mp hfound
    obtain ⟨hk, hcounts⟩ := List.mem_filter.mp hk
    have hunder := Members.mem_under.mpr ⟨key, inner, hmem, hkey, hk⟩
    exact ⟨m.stop, k, List.mem_filter.mpr ⟨hunder, hcounts⟩, rfl⟩
  · cases hfound

theorem exists_mem_blockMentions (hclients : AllNames (c.client.string :: clients)) {k : String}
    (mention : Nat → String → String → Mention)
    (hk : k ∈ (c.argument.under ks.names).filter counts) :
    ∃ n, mention n c.accessor.string k ∈
      blockMentions ks.pattern counts mention (c.client.string :: clients) c.chars := by
  obtain ⟨hunder, hcounts⟩ := List.mem_filter.mp hk
  obtain ⟨key, inner, hmem, hkey, hk⟩ := Members.mem_under.mp hunder
  obtain ⟨m, hm, hnear, hkeys⟩ := c.exists_block hclients hmem hkey
  refine ⟨m.stop, List.mem_flatMap.mpr ⟨m, hm, ?_⟩⟩
  rw [hnear]
  dsimp only
  rw [hkeys]
  exact List.mem_map.mpr ⟨k, List.mem_filter.mpr ⟨hk, hcounts⟩, rfl⟩

/-- What the code mentions. -/
inductive Mentioned : Mention → Prop where
  | model (n : Nat) : Mentioned
      { raw := c.client.string ++ "." ++ c.accessor.string, kind := .model, offset := some n,
        owner := some c.accessor.string }
  | method (n : Nat) : Mentioned
      { raw := "." ++ c.method, kind := .method, offset := some n,
        owner := some c.accessor.string, name := some c.method }
  | field (n : Nat) {k : String} (hk : k ∈ c.argument.fieldKeys) :
      Mentioned (fieldMention n c.accessor.string k)
  | relation (n : Nat) {k : String} (hk : k ∈ c.argument.relationKeys) :
      Mentioned (relationMention n c.accessor.string k)

/-- What stands around the copies of the call. -/
theorem around : Around c.front (['(', '{'] ++ (c.argument.chars ++ '}' :: ')' :: c.between))
    (['(', '{'] ++ (c.argument.chars ++ ['}', ')', '\n'])) where
  front := c.front_margin.toApart
  between := by
    obtain ⟨x, hx, hword, -⟩ :=
      c.between_margin.last (['(', '{'] ++ (c.argument.chars ++ ['}', ')']))
    refine ⟨?_, x, by simpa using hx, hword⟩
    simp [c.dotless_argument, c.between_margin.dotless]
  behind := by simp [c.dotless_argument]
  heads := by
    rintro v (rfl | rfl) <;> exact forall_head?_cons (by decide)

theorem chars_eq_twice : c.chars = twice (c.anchor ++ c.method.toList) c.front
    (['(', '{'] ++ (c.argument.chars ++ '}' :: ')' :: c.between))
    (['(', '{'] ++ (c.argument.chars ++ ['}', ')', '\n'])) := by
  simp [chars, twice, openArgument]

/-- The matches of the call. -/
theorem exists_matches (hclients : AllNames (c.client.string :: clients)) :
    ((modelCall (c.client.string :: clients)).findAll c.chars).map
        (fun m => (m.name 1, m.name 2, m.name 3)) =
      [(c.client.string, c.accessor.string, c.method),
        (c.client.string, c.accessor.string, c.method)] := by
  rw [chars_eq_twice]
  exact modelCalls_twice hclients c.around c.method_mem

theorem mem_callMentions (hclients : AllNames (c.client.string :: clients)) {found : Mention}
    (h : found ∈ ((modelCall (c.client.string :: clients)).findAll c.chars).flatMap callMentions) :
    c.Mentioned found := by
  obtain ⟨m, hm, hfound⟩ := List.mem_flatMap.mp h
  have hnames : (m.name 1, m.name 2, m.name 3) =
      (c.client.string, c.accessor.string, c.method) := by
    have hmem := List.mem_map_of_mem (f := fun m : Match => (m.name 1, m.name 2, m.name 3)) hm
    rw [c.exists_matches hclients] at hmem
    simpa using hmem
  obtain ⟨h₁, h₂₃⟩ := Prod.mk.inj hnames
  obtain ⟨h₂, h₃⟩ := Prod.mk.inj h₂₃
  simp only [callMentions, h₁, h₂, h₃, List.mem_cons, List.not_mem_nil, or_false] at hfound
  rcases hfound with rfl | rfl
  · exact .model m.start
  · exact .method (m.groupStart 3)

theorem exists_mem_callMentions (hclients : AllNames (c.client.string :: clients)) :
    ∃ m, callMentions m ⊆
        ((modelCall (c.client.string :: clients)).findAll c.chars).flatMap callMentions ∧
      m.name 2 = c.accessor.string ∧ m.name 3 = c.method := by
  have hmatches := c.exists_matches hclients
  obtain ⟨m, rest, hfound⟩ := List.exists_cons_of_ne_nil (l :=
    (modelCall (c.client.string :: clients)).findAll c.chars) fun hnil => by
      rw [hnil] at hmatches
      cases hmatches
  rw [hfound, List.map_cons] at hmatches
  have hnames := (List.cons.inj hmatches).1
  refine ⟨m, ?_, congrArg (·.2.1) hnames, congrArg (·.2.2) hnames⟩
  rw [hfound]
  exact List.subset_append_left _ _

/-- **The mentions of a plan with this code** are, of those about one subject, the first ones. -/
theorem exists_mentions_eq {plan : List Char} (hplan : Plan.codeRegions plan = c.chars) :
    ∃ all, mentions plan = firstPerKey (fun m => (m.kind, m.raw, m.owner)) all ∧
      (∀ found ∈ all, c.Mentioned found) ∧
      ∀ s ∈ callSubjects c.accessor.string c.method c.argument, s ∈ all.map subject := by
  obtain ⟨clients, hclientNames, hclients⟩ := clientNames_twice (q := c.client) (a := c.accessor)
    c.around c.method_mem
  rw [show Prisma.anchor c.client c.accessor = c.anchor from rfl, ← chars_eq_twice] at hclientNames
  unfold mentions
  dsimp only
  rw [hplan, hclientNames, ← pattern_fieldBlocks, ← pattern_relationBlocks]
  refine ⟨_, rfl, fun found hfound => ?_, fun s hs => ?_⟩
  · rcases List.mem_append.mp hfound with hfound | hrelation
    · rcases List.mem_append.mp hfound with hcall | hfield
      · exact c.mem_callMentions hclients hcall
      · obtain ⟨n, k, hk, rfl⟩ := c.mem_blockMentions hclients hfield
        exact .field n hk
    · obtain ⟨n, k, hk, rfl⟩ := c.mem_blockMentions hclients hrelation
      exact .relation n hk
  · -- The mentions of the call come first, then the fields and the relations.
    obtain ⟨m, hcall, haccessor, hmethod⟩ := c.exists_mem_callMentions hclients
    have hadd : ∀ {u v w : List Mention} {x : Mention}, (x ∈ u ∨ x ∈ v ∨ x ∈ w) →
        subject x ∈ (u ++ v ++ w).map subject := fun h =>
      List.mem_map_of_mem (by simpa [or_assoc] using h)
    simp only [callSubjects, List.mem_cons, List.cons_append, List.mem_append, List.mem_map] at hs
    rcases hs with rfl | rfl | ⟨k, hk, rfl⟩ | ⟨k, hk, rfl⟩
    · rw [← haccessor]
      exact hadd (Or.inl (hcall List.mem_cons_self))
    · rw [← haccessor, ← hmethod]
      exact hadd (Or.inl (hcall (List.mem_cons_of_mem _ List.mem_cons_self)))
    · obtain ⟨n, hn⟩ := c.exists_mem_blockMentions hclients fieldMention hk
      exact hadd (x := fieldMention n c.accessor.string k) (Or.inr (Or.inl hn))
    · obtain ⟨n, hn⟩ := c.exists_mem_blockMentions hclients relationMention hk
      exact hadd (x := relationMention n c.accessor.string k) (Or.inr (Or.inr hn))

theorem Mentioned.subject_mem {m : Mention} (h : c.Mentioned m) :
    subject m ∈ callSubjects c.accessor.string c.method c.argument := by
  cases h with
  | model n => exact List.mem_cons_self
  | method n => exact List.mem_cons_of_mem _ List.mem_cons_self
  | field n hk => simp [callSubjects, subject, fieldMention, hk]
  | relation n hk => simp [callSubjects, subject, relationMention, hk]

/-- What is mentioned is told apart by its wording as it is by what it is about. -/
theorem Mentioned.key_eq_iff {m m' : Mention} (h : c.Mentioned m) (h' : c.Mentioned m') :
    (m'.kind, m'.raw, m'.owner) = (m.kind, m.raw, m.owner) ↔ subject m' = subject m := by
  cases h <;> cases h' <;> simp [subject, fieldMention, relationMention, String.append_right_inj]

/-- **What the mentions are about**, each once. -/
theorem perm_subjects {plan : List Char} (hplan : Plan.codeRegions plan = c.chars) :
    ((mentions plan).map subject).Perm
      (callSubjects c.accessor.string c.method c.argument).dedup := by
  obtain ⟨all, hmentions, hall, hsubjects⟩ := c.exists_mentions_eq hplan
  have hfilter : mentions plan = (mentions plan).filter fun _ => true := (List.filter_true _).symm
  rw [hfilter, hmentions]
  refine perm_map_filter_firstPerKey _ (fun m hm _ m' hm' => ?_) fun s => ?_
  · simpa using (hall m hm).key_eq_iff c (hall m' hm')
  · rw [List.filter_true]
    refine ⟨fun hs => ?_, hsubjects s⟩
    obtain ⟨m, hm, rfl⟩ := List.mem_map.mp hs
    exact (hall m hm).subject_mem c

end Mentions

end CallCode

end PlanAudit.Prisma
