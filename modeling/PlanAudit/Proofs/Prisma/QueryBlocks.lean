import PlanAudit.Prisma.Mentions
import PlanAudit.Proofs.Pattern.Choices
import PlanAudit.Proofs.Pattern.Positions
import PlanAudit.Proofs.Prisma.Arguments

/-!
# Blocks of a query

Fields and relations are named in objects under certain keys of the argument.  A search finds these
keys at every depth, and the number of open braces tells the ones of the argument itself from those
of the objects nested in it.  It finds them even at the end of a longer key, which only a fixed set
of keys in the argument rules out.

## Main definitions

* `BlockKeys`: the keys of one sort of blocks
* `BlockAt`: a text that begins with such a key and an object
* `Members.under`: the names of the members of the objects under these keys

## Main results

* `Members.site`: where a block begins with no brace open, an object under such a key begins
* `Members.exists_site`: every object under such a key is begun by a block
* `exists_position_of_mem_findAll_block`, `exists_mem_findAll_block`: the blocks that are found
-/

namespace PlanAudit.Prisma

open Text Pattern

/-! ## Keys of blocks -/

/-- The keys that the argument of a client call has. -/
def argumentKeys : List String :=
  ["where", "orderBy", "select", "by", "data", "include", "take", "skip", "cursor", "distinct",
    "create", "update"]

/-- A letter of the keys. -/
def isLetter (c : Char) : Bool := isLowerAscii c || isUpperAscii c

/-- The keys of one sort of blocks. -/
structure BlockKeys where
  /-- The keys. -/
  names : List String
  /-- They are made of letters. -/
  letters : ∀ s ∈ names, s.toList ≠ [] ∧ ∀ c ∈ s.toList, isLetter c = true
  /-- No key of an argument ends in one of them without being it. -/
  whole : ∀ a ∈ argumentKeys, ∀ s ∈ names, s.toList <:+ a.toList → a = s

/-- The keys of the blocks in which fields are named. -/
def fieldBlocks : BlockKeys where
  names := ["where", "orderBy", "select", "by", "data"]
  letters := by decide
  whole := by decide

/-- The key of the blocks in which relations are named. -/
def relationBlocks : BlockKeys where
  names := ["include"]
  letters := by decide
  whole := by decide

/-- The pattern of a block under one of the keys. -/
def BlockKeys.pattern (ks : BlockKeys) : Pattern :=
  oneOfTexts ks.names ++ blanks ++ char ':' ++ blanks ++ char '{'

theorem pattern_fieldBlocks : fieldBlocks.pattern = queryBlock := rfl

theorem pattern_relationBlocks : relationBlocks.pattern = includeBlock := rfl

/-- The text begins with one of the keys and a brace in front of `r`. -/
def BlockAt (ks : BlockKeys) (text r : List Char) : Prop :=
  ∃ s ∈ ks.names, ∃ g h, (∀ c ∈ g, isBlank c = true) ∧ (∀ c ∈ h, isBlank c = true) ∧
    text = s.toList ++ (g ++ ':' :: (h ++ '{' :: r))

section BlockAt

variable {ks : BlockKeys} {w t r : List Char}

theorem isWord_of_isLetter {c : Char} (h : isLetter c = true) : isWord c = true :=
  isWord_of_isAlphanumericAscii (by
    rw [isAlphanumericAscii, Bool.or_assoc, Bool.or_comm (isUpperAscii c), ← isLetter, h,
      Bool.or_true])

theorem isLetter_eq_false_of_isBlank {c : Char} (h : isBlank c = true) : isLetter c = false := by
  by_contra hletter
  rw [isBlank_eq_false_of_isWord (isWord_of_isLetter (by simpa using hletter))] at h
  cases h

theorem isLetter_eq_false_of_isDigitAscii {c : Char} (h : isDigitAscii c = true) :
    isLetter c = false := by
  have hle : c ≤ '9' := by
    simp only [isDigitAscii, Bool.and_eq_true, decide_eq_true_eq] at h
    exact h.2
  have hnot : ∀ first : Char, '9'.toNat < first.toNat → ¬ first ≤ c :=
    fun first hfirst hfc => absurd (Nat.le_trans (show first.toNat ≤ c.toNat from hfc) hle)
      (Nat.not_le_of_gt hfirst)
  simp [isLetter, isLowerAscii, isUpperAscii, hnot 'a' (by decide), hnot 'A' (by decide)]

theorem isKeyChar_eq_false_of_isBlank {c : Char} (h : isBlank c = true) : isKeyChar c = false := by
  have hdollar : c ≠ '$' := by
    rintro rfl
    exact absurd h (by decide)
  simp [isKeyChar, isWord_eq_false_of_isBlank h, hdollar]

theorem BlockAt.head (h : BlockAt ks t r) : ∃ x rest, t = x :: rest ∧ isLetter x = true := by
  obtain ⟨s, hs, g, v, -, -, rfl⟩ := h
  obtain ⟨hne, hletters⟩ := ks.letters s hs
  obtain ⟨x, rest, hx⟩ := List.exists_cons_of_ne_nil hne
  exact ⟨x, rest ++ (g ++ ':' :: (v ++ '{' :: r)), by rw [hx, List.cons_append],
    hletters x (by simp [hx])⟩

/-- A block does not begin where no letter stands. -/
theorem avoids_block_of_letterless (hw : ∀ c ∈ w, isLetter c = false) :
    Avoids (fun t => ∃ r, BlockAt ks t r) w t :=
  avoids_of_head (fun _ ⟨_, h⟩ => h.head) hw

/-- **A block does not begin where no colon follows**: a key ends in front of the last character,
and white space as well. -/
theorem avoids_block_of_last (hw : ':' ∉ w) {x : Char} (hx : w.getLast? = some x)
    (hletter : isLetter x = false) (hblank : isBlank x = false) :
    Avoids (fun t => ∃ r, BlockAt ks t r) w t := by
  rintro u v hsplit hv ⟨r, s, hs, g, h, hg, -, htext⟩
  have hcolon : ':' ∉ v := fun hmem => hw (by simp [hsplit, hmem])
  rw [hsplit, List.getLast?_append_of_ne_nil u hv] at hx
  rw [← List.append_assoc] at htext
  obtain ⟨z, hz⟩ := exists_eq_append_of_not_mem hcolon htext
  have hmem : x ∈ s.toList ++ g := by
    rw [hz]
    exact List.mem_append_left z (List.mem_of_getLast? hx)
  rcases List.mem_append.mp hmem with hmem | hmem
  · rw [(ks.letters s hs).2 x hmem] at hletter
    cases hletter
  · rw [hg x hmem] at hblank
    cases hblank

/-- **A block is read in one way only.** -/
theorem BlockAt.eq_of_key {g h v : List Char} (hat : BlockAt ks (w ++ (g ++ ':' :: (h ++ v))) r)
    (hw : ∀ c ∈ w, isKeyChar c = true) (hg : ∀ c ∈ g, isBlank c = true)
    (hh : ∀ c ∈ h, isBlank c = true) (hv : ∀ c ∈ v.head?, isBlank c = false) :
    (∃ s ∈ ks.names, w = s.toList) ∧ v = '{' :: r := by
  obtain ⟨s, hs, g', h', hg', hh', htext⟩ := hat
  have hstop : ∀ {g t : List Char}, (∀ c ∈ g, isBlank c = true) →
      ∀ c ∈ (g ++ ':' :: t).head?, isKeyChar c = false := fun hg =>
    forall_head?_append (fun c hc => isKeyChar_eq_false_of_isBlank (hg c hc))
      (forall_head?_cons (by decide))
  have hcolon : ∀ {g : List Char}, (∀ c ∈ g, isBlank c = true) → ':' ∉ g := fun hg hmem =>
    absurd (hg _ hmem) (by decide)
  have hletters : ∀ c ∈ s.toList, isKeyChar c = true := fun c hc => by
    rw [isKeyChar, isWord_of_isLetter ((ks.letters s hs).2 c hc), Bool.true_or]
  -- The key, the white space behind it and that behind the colon end at the same places.
  have hkey : w = s.toList := by
    rw [← takeWhile_append hw (hstop hg), htext, takeWhile_append hletters (hstop hg')]
  rw [hkey] at htext
  obtain ⟨-, hbehind⟩ :=
    eq_of_append_cons_eq (hcolon hg) (hcolon hg') (List.append_cancel_left htext)
  refine ⟨⟨s, hs, hkey⟩, ?_⟩
  rw [← dropWhile_append hh hv, hbehind, dropWhile_append hh' (forall_head?_cons (by decide))]

end BlockAt

/-- The names of the members of the objects under the keys. -/
def Members.under (o : Members) (names : List String) : List String :=
  o.members.flatMap fun p =>
    match p.2 with
    | .object inner => if p.1.string ∈ names then inner.names else []
    | .digits _ => []

theorem Members.mem_under {o : Members} {names : List String} {n : String} :
    n ∈ o.under names ↔
      ∃ k inner, (k, Value.object inner) ∈ o.members ∧ k.string ∈ names ∧ n ∈ inner.names := by
  rw [Members.under, List.mem_flatMap]
  constructor
  · rintro ⟨⟨k, v⟩, hmem, hn⟩
    cases v with
    | digits d => cases hn
    | object inner =>
      dsimp only at hn
      split at hn
      · rename_i hk
        exact ⟨k, inner, hmem, hk, hn⟩
      · cases hn
  · rintro ⟨k, inner, hmem, hk, hn⟩
    refine ⟨(k, .object inner), hmem, ?_⟩
    dsimp only
    rwa [if_pos hk]

/-- The keys that stand for fields: those directly under the keys of field blocks that are neither
operators nor aggregates. -/
def Members.fieldKeys (o : Members) : List String :=
  (o.under fieldBlocks.names).filter fun k => !operatorKeys.contains k

/-- The keys that stand for relations: those directly under `include` but the count. -/
def Members.relationKeys (o : Members) : List String :=
  (o.under relationBlocks.names).filter (· != "_count")

/-! ## Where blocks begin in an argument -/

section Site

variable {ks : BlockKeys} {w x y r : List Char}

/-- A block that begins in a key, or in what stands around it, begins with the end of the key, and
the value is an object. -/
theorem KeyText.site (k : KeyText) (hw : ∀ c ∈ w.head?, isBlank c = false)
    (hsplit : k.chars ++ w = x ++ y) (hat : BlockAt ks y r) :
    (∃ z, x = k.chars ++ z ∧ w = z ++ y) ∨
      (∃ s ∈ ks.names, s.toList <:+ k.key.chars) ∧ w = '{' :: r := by
  have hblank : ∀ (g : Spacing) {t : List Char}, Avoids (fun t => ∃ r, BlockAt ks t r) g.chars t :=
    fun g _ => avoids_block_of_letterless fun c hc => isLetter_eq_false_of_isBlank (g.blank c hc)
  have hbehind : Avoids (fun t => ∃ r, BlockAt ks t r)
      (k.gaps.1.chars ++ ([':'] ++ k.gaps.2.chars)) w :=
    (hblank _).append ((avoids_block_of_letterless (by decide)).append (hblank _))
  have hchars : k.chars ++ w = k.indent.chars ++
      (k.key.chars ++ (k.gaps.1.chars ++ ([':'] ++ k.gaps.2.chars) ++ w)) := by
    simp [KeyText.chars]
  rw [hchars] at hsplit
  obtain ⟨x, rfl, hkey⟩ := (hblank k.indent).pass hsplit ⟨r, hat⟩
  rcases List.append_eq_append_iff.mp hkey with ⟨z, rfl, hz⟩ | ⟨z, hz, rfl⟩
  · left
    obtain ⟨z, rfl, rfl⟩ := hbehind.pass hz ⟨r, hat⟩
    exact ⟨z, by simp [KeyText.chars], rfl⟩
  · right
    have hsuffix : z <:+ k.key.chars := ⟨x, hz.symm⟩
    rw [List.append_assoc, List.append_assoc, List.singleton_append] at hat
    obtain ⟨⟨s, hs, rfl⟩, hobject⟩ := hat.eq_of_key (fun c hc => k.key.isKey c (hsuffix.subset hc))
      k.gaps.1.blank k.gaps.2.blank hw
    exact ⟨⟨s, hs, hsuffix⟩, hobject⟩

/-- No block begins in a value with no brace open. -/
theorem Value.site (v : Value) (hsplit : v.chars ++ w = x ++ y) (hat : BlockAt ks y r)
    (hx : braceBalance x ≤ 0) : ∃ z, x = v.chars ++ z ∧ w = z ++ y := by
  cases v with
  | digits d =>
    refine Avoids.pass (D := fun t => ∃ r, BlockAt ks t r) ?_ hsplit ⟨r, hat⟩
    exact avoids_block_of_letterless fun c hc => isLetter_eq_false_of_isDigitAscii (d.digit c hc)
  | object o =>
    rcases List.append_eq_append_iff.mp hsplit with ⟨z, hz, hw⟩ | ⟨z, hz, rfl⟩
    · exact ⟨z, hz, hw⟩
    · by_cases hne : z = []
      · exact ⟨[], by simpa [hne] using hz.symm, by simp [hne]⟩
      · exfalso
        by_cases hnil : x = []
        · -- The block would begin with the brace.
          obtain ⟨c, rest, hbrace, hletter⟩ := hat.head
          rw [hnil, List.nil_append] at hz
          rw [← hz] at hbrace
          obtain ⟨rfl, -⟩ := List.cons.inj hbrace
          exact absurd hletter (by decide)
        · exact absurd ((compositional_nested.members o).inside hz hnil hne) (Int.not_lt.mpr hx)

/-- A member with an object under a key that ends in one of the keys. -/
def Members.HasBlock (ks : BlockKeys) (o : Members) (r : List Char) : Prop :=
  ∃ k inner, (k, Value.object inner) ∈ o.members ∧ (∃ s ∈ ks.names, s.toList <:+ k.chars) ∧
    ∃ t, r = inner.chars ++ '}' :: t

theorem Value.head (v : Value) (w : List Char) : ∀ c ∈ (v.chars ++ w).head?, isBlank c = false := by
  cases v with
  | object o => exact forall_head?_cons (by decide)
  | digits d =>
    obtain ⟨x, rest, hx⟩ := List.exists_cons_of_ne_nil d.ne_nil
    have hdigit := d.digit x (by simp [hx])
    have hword := isWord_of_isAlphanumericAscii (c := x) (by simp [isAlphanumericAscii, hdigit])
    rw [Value.chars, hx]
    exact forall_head?_cons (isBlank_eq_false_of_isWord hword)

theorem avoids_block_spacing (g : Spacing) {t : List Char} :
    Avoids (fun t => ∃ r, BlockAt ks t r) g.chars t :=
  avoids_block_of_letterless fun c hc => isLetter_eq_false_of_isBlank (g.blank c hc)

/-- A member and the white space behind it are passed over unless the block begins under its key. -/
theorem site_member (k : KeyText) (v : Value) (space : Spacing)
    (hsplit : k.chars ++ (v.chars ++ (space.chars ++ w)) = x ++ y) (hat : BlockAt ks y r)
    (hx : braceBalance x ≤ 0) :
    (∃ z, x = k.chars ++ (v.chars ++ (space.chars ++ z)) ∧ w = z ++ y ∧ braceBalance z ≤ 0) ∨
      ∃ inner, v = .object inner ∧ (∃ s ∈ ks.names, s.toList <:+ k.key.chars) ∧
        r = inner.chars ++ '}' :: (space.chars ++ w) := by
  rcases k.site (v.head _) hsplit hat with ⟨z, rfl, hz⟩ | ⟨hkey, hobject⟩
  · left
    rw [braceBalance_append, (compositional_nested.plain _ (isPlain_of_mem_keyText k)).total,
      Int.zero_add] at hx
    obtain ⟨z₁, rfl, hz₁⟩ := v.site hz hat hx
    obtain ⟨z₂, rfl, rfl⟩ := (avoids_block_spacing space).pass hz₁ ⟨r, hat⟩
    refine ⟨z₂, by simp, rfl, ?_⟩
    rwa [braceBalance_append, (compositional_nested.value v).total, Int.zero_add,
      braceBalance_append, (compositional_nested.plain _ (isPlain_of_mem_spacing space)).total,
      Int.zero_add] at hx
  · right
    cases v with
    | digits d =>
      obtain ⟨c, rest, hc⟩ := List.exists_cons_of_ne_nil d.ne_nil
      rw [Value.chars, hc] at hobject
      obtain rfl : c = '{' := (List.cons.inj hobject).1
      exact absurd (d.digit '{' (by simp [hc])) (by decide)
    | object inner =>
      refine ⟨inner, rfl, hkey, ?_⟩
      have hinner := (List.cons.inj hobject).2
      simpa using hinner.symm

/-- **Where a block begins with no brace open**: behind the argument, or under a key of it. -/
theorem Members.site (o : Members) (hsplit : o.chars ++ w = x ++ y) (hat : BlockAt ks y r)
    (hx : braceBalance x ≤ 0) : (∃ z, x = o.chars ++ z ∧ w = z ++ y) ∨ o.HasBlock ks r := by
  induction o using Members.members.induct generalizing x with
  | case1 space => exact Or.inl ((avoids_block_spacing space).pass hsplit ⟨r, hat⟩)
  | case2 k v space =>
    rw [Members.chars, List.append_assoc, List.append_assoc] at hsplit
    rcases site_member k v space hsplit hat hx with ⟨z, rfl, hz, -⟩ | ⟨inner, rfl, hkey, hr⟩
    · exact Or.inl ⟨z, by simp [Members.chars], hz⟩
    · exact Or.inr ⟨k.key, inner, List.mem_singleton_self _, hkey, _, hr⟩
  | case3 k v space rest ih =>
    rw [Members.chars, List.append_assoc, List.append_assoc, List.append_assoc,
      List.cons_append] at hsplit
    rcases site_member k v space hsplit hat hx with
      ⟨z, rfl, hz, hbalance⟩ | ⟨inner, rfl, hkey, hr⟩
    · have hcomma : Avoids (fun t => ∃ r, BlockAt ks t r) [','] (rest.chars ++ w) :=
        avoids_block_of_letterless (by decide)
      obtain ⟨z₁, rfl, hz₁⟩ := hcomma.pass hz ⟨r, hat⟩
      rcases ih hz₁ (by simpa [braceBalance] using hbalance) with ⟨z₂, rfl, hz₂⟩ | hblock
      · exact Or.inl ⟨z₂, by simp [Members.chars], hz₂⟩
      · obtain ⟨k', inner, hmem, hblock⟩ := hblock
        exact Or.inr ⟨k', inner, List.mem_cons_of_mem _ hmem, hblock⟩
    · exact Or.inr ⟨k.key, inner, List.mem_cons_self, hkey, _, hr⟩

/-- **Every object under a key is begun by the key**, behind white space at the start of the
argument or behind a comma, where no brace is open. -/
theorem Members.exists_site (o : Members) {k : KeyName} {inner : Members}
    (h : (k, Value.object inner) ∈ o.members) :
    ∃ (front : List Char) (indent g v : Spacing) (t : List Char),
      o.chars = front ++ (indent.chars ++ (k.chars ++ (g.chars ++ ':' :: (v.chars ++ '{' ::
        (inner.chars ++ '}' :: t))))) ∧
      (∀ c ∈ front.getLast?, c = ',') ∧ braceBalance front = 0 := by
  induction o using Members.members.induct with
  | case1 space => cases h
  | case2 key v space =>
    obtain ⟨rfl, rfl⟩ := Prod.mk.inj (List.mem_singleton.mp h)
    exact ⟨[], key.indent, key.gaps.1, key.gaps.2, space.chars,
      by simp [Members.chars, KeyText.chars, Value.chars], by simp, rfl⟩
  | case3 key v space rest ih =>
    rcases List.mem_cons.mp h with h | h
    · obtain ⟨rfl, rfl⟩ := Prod.mk.inj h
      exact ⟨[], key.indent, key.gaps.1, key.gaps.2, space.chars ++ ',' :: rest.chars,
        by simp [Members.chars, KeyText.chars, Value.chars], by simp, rfl⟩
    · obtain ⟨front, indent, g, u, t, hrest, hlast, hbalance⟩ := ih h
      refine ⟨key.chars ++ (v.chars ++ (space.chars ++ ([','] ++ front))), indent, g, u, t,
        by simp [Members.chars, hrest], ?_, ?_⟩
      · intro c hc
        have hne : [','] ++ front ≠ [] := List.cons_ne_nil _ _
        rw [List.getLast?_append_of_ne_nil _ (by simp), List.getLast?_append_of_ne_nil _ (by simp),
          List.getLast?_append_of_ne_nil _ hne, List.getLast?_append] at hc
        cases hfront : front.getLast? with
        | none => simpa [hfront, eq_comm] using hc
        | some x => exact hlast c (by simpa [hfront] using hc)
      · have hspace := compositional_nested.plain _ (isPlain_of_mem_spacing space)
        have hkey := compositional_nested.plain _ (isPlain_of_mem_keyText key)
        rw [braceBalance_append, braceBalance_append, braceBalance_append, braceBalance_append,
          hkey.total, (compositional_nested.value v).total, hspace.total, hbalance]
        rfl

end Site

/-! ## Blocks that are found -/

section Found

variable {ks : BlockKeys} {m : Match} {code u g t r : List Char}

theorem blockAt_of_mem_outcomes {c d : Cursor} (hd : d ∈ ks.pattern.outcomes c) :
    BlockAt ks c.rest d.rest := by
  obtain ⟨c₄, hd, hbrace⟩ := mem_outcomes_append.mp hd
  obtain ⟨c₃, hd, hspace⟩ := mem_outcomes_append.mp hd
  obtain ⟨c₂, hd, hcolon⟩ := mem_outcomes_append.mp hd
  obtain ⟨c₁, hkey, hgap⟩ := mem_outcomes_append.mp hd
  obtain ⟨s, hs, hkey⟩ := exists_reads_of_mem_oneOfTexts hkey
  obtain ⟨g, hg, hgBlank⟩ := exists_reads_of_mem_blanks hgap
  obtain ⟨h, hh, hhBlank⟩ := exists_reads_of_mem_blanks hspace
  refine ⟨s, hs, g, h, hgBlank, hhBlank, ?_⟩
  rw [hkey.rest_eq, hg.rest_eq, (reads_of_mem_char hcolon).rest_eq, hh.rest_eq,
    (reads_of_mem_char hbrace).rest_eq]
  rfl

/-- A block that is found begins at the position of the match. -/
theorem exists_position_of_mem_findAll_block (hm : m ∈ ks.pattern.findAll code) :
    ∃ u t, code = u ++ t ∧ m.start = u.length ∧ BlockAt ks t (code.drop m.stop) := by
  obtain ⟨u, t, rfl, hmatch⟩ := exists_position_of_mem_findAll hm
  obtain ⟨hstart, d, hd, hdrop⟩ := drop_stop_of_matchHere hmatch
  exact ⟨u, t, rfl, hstart, hdrop ▸ blockAt_of_mem_outcomes hd⟩

theorem BlockAt.unique {r' : List Char} (h : BlockAt ks t r) (h' : BlockAt ks t r') : r = r' := by
  obtain ⟨s, hs, g, v, hg, hv, rfl⟩ := h
  have hkey : ∀ c ∈ s.toList, isKeyChar c = true := fun c hc => by
    rw [isKeyChar, isWord_of_isLetter ((ks.letters s hs).2 c hc), Bool.true_or]
  exact (List.cons.inj (h'.eq_of_key hkey hg hv (forall_head?_cons (by decide))).2).2

theorem exists_matchHere_block (hat : BlockAt ks t r) (before : Option Char) (offset : Nat) :
    ∃ m, ks.pattern.matchHere before offset t = some m := by
  obtain ⟨s, hs, g, h, hg, hh, rfl⟩ := hat
  have hadmits : ks.pattern.Admits ((((s.toList ++ g) ++ [':']) ++ h) ++ ['{']) r :=
    ((((admits_oneOfTexts hs).append (admits_loop_one hg (Nat.zero_le _))).append
      (takes_char ':').admits).append (admits_loop_one hh (Nat.zero_le _))).append
      (takes_char '{').admits
  exact exists_matchHere_of_mem_outcomes (hadmits _ (by simp))

/-- What stands in front of the brace of a block holds neither a brace nor a comma. -/
theorem readsOnly_block {x : Char} (hmark : x = '{' ∨ x = ',') :
    (oneOfTexts ks.names ++ blanks ++ char ':' ++ blanks).ReadsOnly (· ≠ x) := by
  have hletter : isLetter x = false := by rcases hmark with rfl | rfl <;> decide
  have hblank : isBlank x = false := by rcases hmark with rfl | rfl <;> decide
  have hcolon : x ≠ ':' := by rcases hmark with rfl | rfl <;> decide
  have hblanks : blanks.ReadsOnly (· ≠ x) := by
    rintro y hy rfl
    rw [hy] at hblank
    cases hblank
  refine ⟨⟨⟨readsOnly_oneOfTexts fun s hs y hy => ?_, hblanks⟩, fun y hy => ?_⟩, hblanks⟩
  · rintro rfl
    rw [(ks.letters s hs).2 y hy] at hletter
    cases hletter
  · rw [beq_iff_eq.mp hy]
    exact hcolon.symm

/-- **A block behind a brace or a comma and white space is found**: what is found in front of it
ends there. -/
theorem exists_mem_findAll_block {x : Char} (hx : u.getLast? = some x) (hmark : x = '{' ∨ x = ',')
    (hg : ∀ c ∈ g, isBlank c = true) (hat : BlockAt ks t r) :
    ∃ m ∈ ks.pattern.findAll ((u ++ g) ++ t), m.start = (u ++ g).length ∧
      ((u ++ g) ++ t).drop m.stop = r := by
  obtain ⟨m, hm⟩ := exists_matchHere_block hat (u ++ g).getLast? (u ++ g).length
  obtain ⟨hstart, d, hd, hdrop⟩ := drop_stop_of_matchHere hm
  have hbegins : Begins (fun t => ∃ r, BlockAt ks t r) ks.pattern :=
    fun c d hd => ⟨d.rest, blockAt_of_mem_outcomes hd⟩
  refine ⟨m, mem_findAll_behind hm (fun v w hsplit hw first hfirst => ?_) fun before => ?_, hstart,
    hdrop.trans ((blockAt_of_mem_outcomes hd).unique hat)⟩
  · -- Of what is found only the brace at its end can be the one that stands there.
    obtain ⟨d, hd, rfl⟩ := exists_outcome_of_matchHere hfirst
    obtain ⟨e, he, hde⟩ := mem_outcomes_append.mp hd
    rw [hsplit, List.getLast?_append_of_ne_nil v hw] at hx
    have hlt := add_lt_of_readsOnly (readsOnly_block hmark) he rfl (List.mem_of_getLast? hx)
    rw [hsplit, List.length_append]
    exact Nat.le_trans (Nat.le_of_eq (reads_of_mem_char hde).offset_eq) hlt
  · exact hbegins.quiet (avoids_block_of_letterless fun c hc =>
      isLetter_eq_false_of_isBlank (hg c hc))

end Found

end PlanAudit.Prisma
