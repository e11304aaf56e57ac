import Mathlib.Data.List.Chain
import Mathlib.Data.List.Infix
import PlanAudit.Proofs.Sql.Columns
import PlanAudit.Proofs.Sql.Keywords

/-!
# Statements that import and export

A statement that imports from a module or exports what a module has consists of words and marks in
front of the word `from` and of the specifier of the module behind it.  Words and marks may be laid
out in any way; a line may end only between the braces of a list of names.

The names may be keywords of SQL, and the words of the statement itself are, so that a name of a
table can be read in many places.  In front of the word `from` this does no harm: wherever one word
follows another there, the first is no keyword behind which a table is looked for, or the second is
a keyword itself and not taken for a table.

## Main definitions

* `Clause`: the part in front of the word `from`
* `LaidOut`: the texts in which words and marks are laid out

## Main results

* `clear_of_laidOut`: no table is read in front of the word `from`
* `Clause.exists_brace_of_lineFeed`: behind the last line feed there the list of names is closed
-/

namespace PlanAudit.Sql

open Text Pattern

/-! ## Words and marks -/

/-- The marks of a statement. -/
inductive Mark where
  | opening
  | closing
  | comma
  | star

/-- The character of the mark. -/
def Mark.char : Mark → Char
  | opening => '{'
  | closing => '}'
  | comma => ','
  | star => '*'

/-- A word or a mark. -/
inductive Token where
  | word (n : KeyName)
  | mark (m : Mark)

namespace Token

/-- The characters of the word or mark. -/
def chars : Token → List Char
  | word n => n.chars
  | mark m => [m.char]

/-- Whether what follows stands between braces; `braced` tells whether the token does. -/
def opens (braced : Bool) : Token → Bool
  | mark .opening => true
  | mark .closing => false
  | _ => braced

end Token

/-- White space is needed behind a word in front of another one; behind the last token the word
`from` follows. -/
def NeedsGap : Token → List Token → Prop
  | .word _, .mark _ :: _ => False
  | .word _, _ => True
  | .mark _, _ => False

/-- The text is the tokens laid out in front of the word `from`; `braced` tells whether it starts
between braces. -/
inductive LaidOut : Bool → List Token → List Char → Prop
  | nil : LaidOut false [] []
  | cons {braced : Bool} {token : Token} {tokens : List Token} {gap : Blanks} {text : List Char}
      (unbroken : '\n' ∈ gap.chars → token.opens braced = true)
      (apart : NeedsGap token tokens → gap.chars ≠ [])
      (rest : LaidOut (token.opens braced) tokens text) :
      LaidOut braced (token :: tokens) (token.chars ++ (gap.chars ++ text))

/-! ## The parts of a statement -/

/-- The word `import`. -/
def importWord : KeyName := ⟨['i', 'm', 'p', 'o', 'r', 't'], by decide, by decide⟩

/-- The word `export`. -/
def exportWord : KeyName := ⟨['e', 'x', 'p', 'o', 'r', 't'], by decide, by decide⟩

/-- The word `as`. -/
def asWord : KeyName := ⟨['a', 's'], by decide, by decide⟩

/-- A name in a list, perhaps under another name. -/
structure Item where
  /-- The name in the module. -/
  name : KeyName
  /-- The other name. -/
  other : Option KeyName

/-- The tokens of the name. -/
def Item.tokens : Item → List Token
  | ⟨n, none⟩ => [.word n]
  | ⟨n, some other⟩ => [.word n, .word asWord, .word other]

/-- A list of names. -/
structure NameList where
  /-- The names that a comma follows. -/
  front : List Item
  /-- The name that no comma follows. -/
  last : Option Item

/-- The tokens of the list. -/
def NameList.tokens (l : NameList) : List Token :=
  .mark .opening :: (l.front.flatMap (fun i => i.tokens ++ [.mark .comma]) ++
    (l.last.elim [] Item.tokens ++ [.mark .closing]))

/-- Several names at once. -/
inductive Group where
  /-- Everything under one name. -/
  | all (n : KeyName)
  /-- The names of a list. -/
  | listed (l : NameList)

/-- The tokens of the group. -/
def Group.tokens : Group → List Token
  | all n => [.mark .star, .word asWord, .word n]
  | listed l => l.tokens

/-- What stands in front of the word `from`. -/
inductive Clause where
  /-- `import d` -/
  | importOne (d : KeyName)
  /-- `import * as n` or `import { … }` -/
  | importGroup (g : Group)
  /-- `import d, * as n` or `import d, { … }` -/
  | importBoth (d : KeyName) (g : Group)
  /-- `export *` -/
  | exportAll
  /-- `export * as n` or `export { … }` -/
  | exportGroup (g : Group)

/-- The word with which the clause begins. -/
def Clause.keyword : Clause → KeyName
  | importOne _ | importGroup _ | importBoth _ _ => importWord
  | exportAll | exportGroup _ => exportWord

theorem Clause.keyword_eq (c : Clause) : c.keyword = importWord ∨ c.keyword = exportWord := by
  cases c <;> simp [keyword]

/-- The tokens behind the first word. -/
def Clause.rest : Clause → List Token
  | importOne d => [.word d]
  | importGroup g | exportGroup g => g.tokens
  | importBoth d g => .word d :: .mark .comma :: g.tokens
  | exportAll => [.mark .star]

/-- The tokens of the clause. -/
def Clause.tokens (c : Clause) : List Token := .word c.keyword :: c.rest

/-! ## What a layout begins with -/

section LaidOut

variable {braced : Bool} {tokens : List Token} {text : List Char}

theorem LaidOut.eq_nil (h : LaidOut braced [] text) : text = [] := by
  cases h
  rfl

theorem LaidOut.exists_mark {m : Mark} (h : LaidOut braced (.mark m :: tokens) text) :
    ∃ t, text = m.char :: t := by
  cases h with
  | cons _ _ _ => exact ⟨_, rfl⟩

/-- Behind a word something else than a part of a word follows. -/
theorem LaidOut.exists_word {n : KeyName} (h : LaidOut braced (.word n :: tokens) text) :
    ∃ x t, text = n.chars ++ x :: t ∧ isKeyChar x = false := by
  cases h with
  | @cons _ _ _ gap text _ apart rest =>
    cases hgap : gap.chars with
    | cons x t =>
      have hx : isBlank x = true := gap.blank x (by rw [hgap]; exact List.mem_cons_self)
      refine ⟨x, t ++ text, rfl, ?_⟩
      have hdollar : x ≠ '$' := by
        rintro rfl
        exact absurd hx (by decide)
      simp [isKeyChar, isWord_eq_false_of_isBlank hx, hdollar]
    | nil =>
      -- Without white space the next token is a mark.
      cases tokens with
      | nil => exact absurd hgap (apart trivial)
      | cons token tokens =>
        cases token with
        | word k => exact absurd hgap (apart trivial)
        | mark m =>
          obtain ⟨t, rfl⟩ := rest.exists_mark
          exact ⟨m.char, t, rfl, by cases m <;> decide⟩

end LaidOut

/-- A character that is neither part of a word nor blank nor a mark does not occur. -/
theorem not_mem_of_laidOut {braced : Bool} {tokens : List Token} {text : List Char} {x : Char}
    (hkey : isKeyChar x = false) (hblank : isBlank x = false) (hmark : ∀ m : Mark, x ≠ m.char)
    (h : LaidOut braced tokens text) : x ∉ text := by
  induction h with
  | nil => exact List.not_mem_nil
  | @cons _ token _ gap text _ _ _ ih =>
    have htoken : x ∉ token.chars := by
      intro hmem
      cases token with
      | word n => exact n.not_mem hkey hmem
      | mark m => exact hmark m (List.mem_singleton.mp hmem)
    have hgap : x ∉ gap.chars := fun hmem => by
      rw [gap.blank x hmem] at hblank
      cases hblank
    simp [htoken, hgap, ih]

/-! ## Words one after the other -/

/-- Where two words follow each other, the second is not taken for a table, or the first is no
keyword behind which one is looked for. -/
def Harmless : Token → Token → Prop
  | .word n, .word k => k = asWord ∨ ∀ s, s <:+ n.chars → ¬ IsTableKeyword s
  | _, _ => True

section Harmless

variable {tokens : List Token}

theorem harmless_of_tails {n k : KeyName} (h : ∀ s ∈ n.chars.tails, ¬ IsTableKeyword s) :
    Harmless (.word n) (.word k) :=
  Or.inr fun s hs => h s ((List.mem_tails _ _).mpr hs)

theorem isChain_mark {m : Mark} :
    (Token.mark m :: tokens).IsChain Harmless ↔ tokens.IsChain Harmless := by
  cases tokens with
  | nil => simp
  | cons token tokens => simp [Harmless]

theorem isChain_item (i : Item) {m : Mark} (h : tokens.IsChain Harmless) :
    (i.tokens ++ .mark m :: tokens).IsChain Harmless := by
  have hmark : (Token.mark m :: tokens).IsChain Harmless := isChain_mark.mpr h
  obtain ⟨n, other⟩ := i
  cases other with
  | none => exact List.isChain_cons_cons.mpr ⟨trivial, hmark⟩
  | some a =>
    have has : Harmless (.word asWord) (.word a) := harmless_of_tails (by decide)
    exact List.isChain_cons_cons.mpr ⟨Or.inl rfl, List.isChain_cons_cons.mpr ⟨has,
      List.isChain_cons_cons.mpr ⟨trivial, hmark⟩⟩⟩

theorem isChain_nameList (l : NameList) : l.tokens.IsChain Harmless := by
  obtain ⟨front, last⟩ := l
  refine isChain_mark.mpr ?_
  induction front with
  | nil =>
    cases last with
    | none => exact List.isChain_singleton _
    | some i => exact isChain_item i List.isChain_nil
  | cons i front ih =>
    rw [List.flatMap_cons, List.append_assoc, List.append_assoc]
    exact isChain_item i ih

theorem isChain_group (g : Group) : g.tokens.IsChain Harmless := by
  cases g with
  | all n =>
    have has : Harmless (.word asWord) (.word n) := harmless_of_tails (by decide)
    exact isChain_mark.mpr (List.isChain_cons_cons.mpr ⟨has, List.isChain_singleton _⟩)
  | listed l => exact isChain_nameList l

/-- In a clause no two words are read as a keyword and a table. -/
theorem isChain_clause (c : Clause) : c.tokens.IsChain Harmless := by
  have hkeyword : ∀ k, Harmless (.word c.keyword) (.word k) := by
    intro k
    rcases c.keyword_eq with h | h <;> rw [h] <;> exact harmless_of_tails (by decide)
  have hfirst : ∀ token, Harmless (.word c.keyword) token := by
    intro token
    cases token with
    | word k => exact hkeyword k
    | mark m => trivial
  have hrest : c.rest.IsChain Harmless := by
    cases c with
    | importOne d => exact List.isChain_singleton _
    | importGroup g | exportGroup g => exact isChain_group g
    | importBoth d g =>
      exact List.isChain_cons_cons.mpr ⟨trivial, isChain_mark.mpr (isChain_group g)⟩
    | exportAll => exact List.isChain_singleton _
  unfold Clause.tokens
  cases hc : c.rest with
  | nil => exact List.isChain_singleton _
  | cons token tokens => exact List.isChain_cons_cons.mpr ⟨hfirst token, hc ▸ hrest⟩

end Harmless

/-! ## No table in front of the word `from` -/

/-- The word `from`. -/
def fromChars : List Char := ['f', 'r', 'o', 'm']

section Clear

variable {braced : Bool} {tokens : List Token} {text r : List Char}

theorem not_blank_of_isKeyChar {x : Char} (h : isKeyChar x = true) : isBlank x = false := by
  rcases Bool.or_eq_true_iff.mp h with hword | hdollar
  · exact isBlank_eq_false_of_isWord hword
  · rw [beq_iff_eq.mp hdollar]
    decide

theorem isWord_eq_false_of_isKeyChar {x : Char} (h : isKeyChar x = false) : isWord x = false :=
  (Bool.or_eq_false_iff.mp h).1

theorem clear_mark (m : Mark) {t : List Char} : Clear [m.char] t := by
  refine clear_of_forall fun x hx => ?_
  rw [List.mem_singleton.mp hx]
  cases m <;> decide

/-- What stands behind a word and white space is not blank, and a name that begins there is a
keyword or stands behind a harmless word. -/
theorem name_of_laidOut {n : KeyName} (h : LaidOut braced tokens text)
    (hchain : (Token.word n :: tokens).IsChain Harmless)
    (hr : ∀ x ∈ r.head?, isWord x = false) :
    (∀ x ∈ (text ++ (fromChars ++ r)).head?, isBlank x = false) ∧
      ∀ k, k <:+ n.chars → IsTableKeyword k → ∀ m, NamedBy (text ++ (fromChars ++ r)) m →
        isKeyword (String.ofList m) = true := by
  cases tokens with
  | nil =>
    rw [h.eq_nil, List.nil_append]
    refine ⟨forall_head?_cons (by decide), fun k _ _ m hm => ?_⟩
    rw [hm.eq_of_word (by decide) (by decide) hr]
    decide
  | cons token tokens =>
    cases token with
    | mark m =>
      obtain ⟨t, rfl⟩ := h.exists_mark
      refine ⟨forall_head?_cons (by cases m <;> decide), fun k _ _ m' hm => ?_⟩
      exact absurd hm (not_namedBy (by cases m <;> decide) (by cases m <;> decide))
    | word k =>
      obtain ⟨x, t, rfl, hx⟩ := h.exists_word
      obtain ⟨hharmless, -⟩ := List.isChain_cons_cons.mp hchain
      rw [List.append_assoc]
      constructor
      · obtain ⟨y, s, hy⟩ := List.exists_cons_of_ne_nil k.ne_nil
        rw [hy]
        exact forall_head?_cons
          (not_blank_of_isKeyChar (k.isKey y (by rw [hy]; exact List.mem_cons_self)))
      · intro s hs hkeyword m hm
        rcases hharmless with rfl | hnone
        · rw [hm.eq_of_word (by decide) (by decide)
            (forall_head?_cons (isWord_eq_false_of_isKeyChar hx))]
          decide
        · exact absurd hkeyword (hnone s hs)

/-- **No table is read in front of the word `from`.** -/
theorem clear_of_laidOut (h : LaidOut braced tokens text) (hchain : tokens.IsChain Harmless)
    (hr : ∀ x ∈ r.head?, isWord x = false) : Clear text (fromChars ++ r) := by
  -- Induction on the layout, one word or mark and the white space behind it after the other.
  induction h with
  | nil => exact avoids_nil
  | @cons braced token tokens gap text unbroken apart rest ih =>
    refine Avoids.append ?_ (Avoids.append (clear_blank gap.blank) (ih hchain.tail))
    rw [List.append_assoc]
    cases token with
    | mark m => exact clear_mark m
    | word n =>
      have hblank : ∀ x ∈ n.chars, isBlank x = false := fun x hx =>
        not_blank_of_isKeyChar (n.isKey x hx)
      obtain ⟨hhead, hname⟩ := name_of_laidOut rest hchain hr
      by_cases hgap : gap.chars = []
      · -- The next token is a mark.
        cases tokens with
        | nil => exact absurd hgap (apart trivial)
        | cons token tokens =>
          cases token with
          | word k => exact absurd hgap (apart trivial)
          | mark m =>
            obtain ⟨t, rfl⟩ := rest.exists_mark
            rw [hgap]
            exact clear_word hblank (forall_head?_cons (by cases m <;> decide))
      · exact clear_word_of_gap hblank ⟨gap, hgap⟩ hhead hname

end Clear

/-! ## Line feeds -/

section LineFeeds

variable {braced : Bool} {tokens : List Token} {text : List Char}

/-- Outside braces no line ends. -/
theorem unbroken_of_laidOut (h : LaidOut braced tokens text) (hbraced : braced = false)
    (hopening : Token.mark .opening ∉ tokens) : '\n' ∉ text := by
  induction h with
  | nil => exact List.not_mem_nil
  | @cons braced token tokens gap text unbroken _ _ ih =>
    subst hbraced
    obtain ⟨hne, hopening⟩ := not_or.mp (mt List.mem_cons.mpr hopening)
    have hopens : token.opens false = false := by
      cases token with
      | word n => rfl
      | mark m => cases m <;> first | rfl | exact absurd rfl hne
    have htoken : '\n' ∉ token.chars := by
      cases token with
      | word n => exact fun hmem => absurd (n.isKey _ hmem) (by decide)
      | mark m => cases m <;> decide
    have hgap : '\n' ∉ gap.chars := fun hmem => by
      rw [unbroken hmem] at hopens
      cases hopens
    simp [htoken, hgap, ih hopens hopening]

/-- What ends in a closing brace has nothing but white space behind it. -/
theorem exists_brace_of_laidOut (h : LaidOut braced (tokens ++ [.mark .closing]) text) :
    ∃ v g, text = v ++ '}' :: g ∧ ∀ x ∈ g, isBlank x = true := by
  induction tokens generalizing braced text with
  | nil =>
    cases h with
    | @cons _ _ _ gap _ _ _ rest =>
      exact ⟨[], gap.chars, by rw [rest.eq_nil, List.append_nil]; rfl, gap.blank⟩
  | cons token tokens ih =>
    cases h with
    | @cons _ _ _ gap _ _ _ rest =>
      obtain ⟨v, g, rfl, hg⟩ := ih rest
      exact ⟨token.chars ++ (gap.chars ++ v), g, by simp, hg⟩

theorem Group.closed_or_unbraced (g : Group) :
    (∃ tokens, g.tokens = tokens ++ [.mark .closing]) ∨ Token.mark .opening ∉ g.tokens := by
  cases g with
  | all n => exact Or.inr (by simp [Group.tokens])
  | listed l =>
    refine Or.inl ⟨.mark .opening :: (l.front.flatMap (fun i => i.tokens ++ [.mark .comma]) ++
      l.last.elim [] Item.tokens), ?_⟩
    simp [Group.tokens, NameList.tokens]

/-- A clause ends in a list of names or has no braces. -/
theorem Clause.closed_or_unbraced (c : Clause) :
    (∃ tokens, c.tokens = tokens ++ [.mark .closing]) ∨ Token.mark .opening ∉ c.tokens := by
  have hgroup : ∀ (front : List Token) (g : Group), Token.mark .opening ∉ front →
      (∃ tokens, front ++ g.tokens = tokens ++ [.mark .closing]) ∨
        Token.mark .opening ∉ front ++ g.tokens := by
    intro front g hfront
    rcases g.closed_or_unbraced with ⟨tokens, h⟩ | h
    · exact Or.inl ⟨front ++ tokens, by rw [h, List.append_assoc]⟩
    · exact Or.inr fun hmem => (List.mem_append.mp hmem).elim hfront h
  cases c with
  | importOne d => exact Or.inr (by simp [tokens, rest])
  | importGroup g | exportGroup g => exact hgroup [.word _] g (by simp)
  | importBoth d g => exact hgroup [.word _, .word d, .mark .comma] g (by simp)
  | exportAll => exact Or.inr (by simp [tokens, rest])

/-- **Behind the last line feed in front of the word `from` the list of names is closed.** -/
theorem Clause.exists_brace_of_lineFeed {c : Clause} (h : LaidOut false c.tokens text)
    (hfeed : '\n' ∈ text) : ∃ v g, text = v ++ '}' :: g ∧ ∀ x ∈ g, isBlank x = true := by
  rcases c.closed_or_unbraced with ⟨tokens, htokens⟩ | hopening
  · rw [htokens] at h
    exact exists_brace_of_laidOut h
  · exact absurd hfeed (unbroken_of_laidOut h rfl hopening)

end LineFeeds

end PlanAudit.Sql
