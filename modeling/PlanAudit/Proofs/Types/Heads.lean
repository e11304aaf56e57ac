import PlanAudit.Proofs.Pattern.Choices
import PlanAudit.Proofs.Types.Written

/-!
# Finding the head of a declaration

Words and white space take a text apart in one way only, so that the words in front of a name are
read as they are written or not at all.  What a pattern makes of a head is decided behind the name.

## Main definitions

* `headed k q`: the words in front of a name, the name, and `q` behind it
* `Head.behindName`: the cursor behind the name of a head

## Main results

* `prefix_or_prefix`: of two ways to read words, one goes on where the other stops
* `run_headed`, `run_headed_eq_none`: the name is read, and the match is decided behind it
* `matchHere_headed_eq_none`: nothing is found but where a line starts like a declaration
-/

namespace PlanAudit.Types

open Text Pattern

/-! ## Words in front of a name -/

section Tokens

variable {c d : Cursor}

@[simp] theorem tokensChars_nil : tokensChars [] = [] := rfl

@[simp] theorem tokensChars_cons (t : Token) (ts : List Token) :
    tokensChars (t :: ts) = t.name.chars ++ (t.gap.chars ++ tokensChars ts) := by
  simp [tokensChars, Token.chars]

@[simp] theorem tokensChars_append (ts us : List Token) :
    tokensChars (ts ++ us) = tokensChars ts ++ tokensChars us := List.flatMap_append

theorem head_tokensChars_append (ts : List Token) {r : List Char}
    (hr : ∀ c ∈ r.head?, isWord c = true) :
    ∀ c ∈ (tokensChars ts ++ r).head?, isWord c = true := by
  cases ts with
  | nil => exact hr
  | cons t ts =>
    rw [tokensChars_cons, List.append_assoc]
    exact t.name.head_word _

/-- **Of two ways to read words, one goes on where the other stops.** -/
theorem prefix_or_prefix {ts us : List Token} {r s : List Char}
    (hr : ∀ c ∈ r.head?, isWord c = true) (hs : ∀ c ∈ s.head?, isWord c = true)
    (h : tokensChars ts ++ r = tokensChars us ++ s) : ts <+: us ∨ us <+: ts := by
  induction ts generalizing us with
  | nil => exact Or.inl List.nil_prefix
  | cons t ts ih =>
    cases us with
    | nil => exact Or.inr List.nil_prefix
    | cons u us =>
      have hnext : ∀ {ts : List Token} {r : List Char}, (∀ c ∈ r.head?, isWord c = true) →
          ∀ c ∈ (tokensChars ts ++ r).head?, isBlank c = false :=
        fun hr c hc => isBlank_eq_false_of_isWord (head_tokensChars_append _ hr c hc)
      simp only [tokensChars_cons, List.append_assoc] at h
      -- The first words and the white space behind them are the same.
      obtain ⟨hword, hgap, hrest⟩ := eq_of_word_gap (hnext hr) (hnext hs) h
      rw [Token.ext (Word.ext hword) (Gap.ext hgap), List.prefix_cons_inj, List.prefix_cons_inj]
      exact ih hrest

/-- One word with white space behind it. -/
def wordPattern (s : String) : Pattern := lit s ++ blanks1

theorem silent_wordPattern (s : String) : (wordPattern s).Silent :=
  ⟨silent_lit s, trivial⟩

theorem exists_gap_of_mem (n : Word) (h : d ∈ (wordPattern n.string).outcomes c) :
    ∃ g : Gap, c.rest = tokensChars [⟨n, g⟩] ++ d.rest ∧
      d = c.behind (tokensChars [⟨n, g⟩]) d.rest := by
  obtain ⟨e, he, hde⟩ := mem_outcomes_append.mp h
  obtain ⟨g, hg⟩ := exists_gap_of_mem_blanks1 hde
  have hread := (reads_of_mem_lit he).trans hg
  rw [n.toList_string] at hread
  refine ⟨g, ?_⟩
  have hchars : tokensChars [⟨n, g⟩] = n.chars ++ g.chars := by simp
  rw [hchars]
  exact ⟨hread.rest_eq, eq_behind_of_reads (silent_wordPattern _) h hread⟩

theorem admits_wordPattern (n : Word) (g : Gap) {t : List Char} :
    (wordPattern n.string).Admits (tokensChars [⟨n, g⟩]) t := by
  have hchars : tokensChars [⟨n, g⟩] = n.string.toList ++ g.chars := by simp [n.toList_string]
  rw [hchars]
  exact (takes_lit n.string).admits.append
    (admits_loop_one g.blank (List.length_pos_of_ne_nil g.ne_nil))

/-- Words each of which may be left out. -/
def optionalWords : List String → Pattern
  | [] => empty
  | s :: ss => opt (wordPattern s) ++ optionalWords ss

/-- Every string of the list is a name. -/
def AreNames (ss : List String) : Prop := ∀ s ∈ ss, ∃ n : Word, n.string = s

theorem exists_tokens_of_mem {ss : List String} (hss : AreNames ss)
    (h : d ∈ (optionalWords ss).outcomes c) : ∃ ts : List Token, (ts.map Token.string).Sublist ss ∧
      c.rest = tokensChars ts ++ d.rest ∧ d = c.behind (tokensChars ts) d.rest := by
  induction ss generalizing c with
  | nil =>
    obtain rfl : d = c := List.mem_singleton.mp h
    exact ⟨[], List.Sublist.refl [], rfl, (Cursor.behind_nil rfl).symm⟩
  | cons s ss ih =>
    obtain ⟨⟨n, rfl⟩, hss'⟩ := List.forall_mem_cons.mp hss
    obtain ⟨e, he, hde⟩ := mem_outcomes_append.mp h
    obtain ⟨ts, hts, hrest, hd⟩ := ih hss' hde
    rcases eq_or_mem_of_mem_opt he with rfl | he
    · exact ⟨ts, hts.cons _, hrest, hd⟩
    · obtain ⟨g, hrest', he⟩ := exists_gap_of_mem n he
      refine ⟨⟨n, g⟩ :: ts, hts.cons_cons n.string, ?_, ?_⟩
      · rw [hrest', hrest, ← List.append_assoc, ← tokensChars_append, List.singleton_append]
      · rw [he, Cursor.behind_behind, ← tokensChars_append, List.singleton_append] at hd
        exact hd

theorem admits_optionalWords {ss : List String} {ts : List Token} {t : List Char}
    (h : (ts.map Token.string).Sublist ss) : (optionalWords ss).Admits (tokensChars ts) t := by
  induction ss generalizing ts with
  | nil =>
    obtain rfl : ts = [] := by simpa using h
    intro c hrest
    rw [tokensChars_nil, Cursor.behind_nil (by simpa using hrest)]
    exact List.mem_singleton_self c
  | cons s ss ih =>
    cases ts with
    | nil =>
      have hnone : (optionalWords ss).Admits (tokensChars []) t := ih (List.nil_sublist ss)
      exact admits_opt_nil.append hnone
    | cons u us =>
      -- The word is the first of those that may be left out, or it stands behind it.
      rcases List.sublist_cons_iff.mp h with hskip | ⟨_, heq, hrest⟩
      · exact admits_opt_nil.append (ih hskip)
      · obtain ⟨rfl, rfl⟩ := List.cons.inj heq
        have hone : tokensChars [u] ≠ [] := by simp [u.name.ne_nil]
        have hword := (admits_wordPattern u.name u.gap (t := tokensChars us ++ t)).opt hone
        have happend := hword.append (ih hrest)
        rwa [← tokensChars_append] at happend

end Tokens

/-! ## The words of a kind -/

namespace DeclarationKind

theorem string_keyword (k : DeclarationKind) : k.keyword.string = k.label := String.ofList_toList

theorem areNames_modifiers (k : DeclarationKind) : AreNames k.modifiers := by
  have hword : ∀ s ∈ k.modifiers, s.toList ≠ [] ∧ s.toList.all isWord = true := by
    cases k <;> decide
  intro s hs
  obtain ⟨hne, hall⟩ := hword s hs
  exact ⟨⟨s.toList, hne, List.all_eq_true.mp hall⟩, String.ofList_toList⟩

theorem label_mem_kindLabels (k : DeclarationKind) : k.label ∈ kindLabels := by cases k <;> decide

theorem label_not_mem_modifiers (k l : DeclarationKind) : k.label ∉ l.modifiers := by
  cases k <;> cases l <;> decide

theorem label_injective {k l : DeclarationKind} (h : k.label = l.label) : k = l := by
  revert h
  cases k <;> cases l <;> decide

end DeclarationKind

/-! ## The head -/

/-- The words in front of a name. -/
def leading (k : DeclarationKind) : Pattern := optionalWords k.modifiers ++ wordPattern k.label

/-- The words in front of a name at the start of a line, the name, and `q` behind it. -/
def headed (k : DeclarationKind) (q : Pattern) : Pattern :=
  lineStart ++ (leading k ++ (capture 1 Pattern.name ++ q))

section Head

variable {c d : Cursor} {k : DeclarationKind}

theorem exists_tokens_of_mem_leading (h : d ∈ (leading k).outcomes c) :
    ∃ (ts : List Token) (g : Gap), (ts.map Token.string).Sublist k.modifiers ∧
      c.rest = tokensChars (ts ++ [⟨k.keyword, g⟩]) ++ d.rest ∧
      d = c.behind (tokensChars (ts ++ [⟨k.keyword, g⟩])) d.rest := by
  obtain ⟨e, he, hde⟩ := mem_outcomes_append.mp h
  obtain ⟨ts, hts, hrest, he⟩ := exists_tokens_of_mem k.areNames_modifiers he
  rw [← k.string_keyword] at hde
  obtain ⟨g, hrest', hd⟩ := exists_gap_of_mem _ hde
  refine ⟨ts, g, hts, ?_, ?_⟩
  · rw [hrest, hrest', tokensChars_append, List.append_assoc]
  · rw [he, Cursor.behind_behind, ← tokensChars_append] at hd
    exact hd

namespace Head

variable (h : Head) {X : List Char}

/-- The cursor behind the name of a head that stands in front of `X`. -/
def behindName (c : Cursor) (X : List Char) : Cursor :=
  ((c.behind (tokensChars h.tokens) (h.name.chars ++ X)).behind h.name.chars X).record 1
    (c.behind (tokensChars h.tokens) (h.name.chars ++ X))

variable {h}

/-- The words in front of the name are read as they are written, or not at all. -/
theorem tokens_eq {ts : List Token} {g : Gap} {r : List Char}
    (hts : (ts.map Token.string).Sublist k.modifiers) (hr : ∀ c ∈ r.head?, isWord c = true)
    (heq : tokensChars (ts ++ [⟨k.keyword, g⟩]) ++ r = h.front ++ X) :
    k = h.kind ∧ h.Introduces ∧ ts ++ [⟨k.keyword, g⟩] = h.tokens := by
  have hsame : ts ++ [⟨k.keyword, g⟩] = h.tokens := by
    rw [front, List.append_assoc] at heq
    rcases prefix_or_prefix hr (h.name.head_word X) heq with hpre | hpre
    · -- A keyword does not stand among the words in front of another one.
      rcases List.prefix_concat_iff.mp hpre with hall | hpart
      · exact hall
      · have hmem : (⟨k.keyword, g⟩ : Token) ∈ h.modifiers := hpart.subset (by simp)
        have hlabel : k.keyword.string ∈ kindLabels := by
          rw [k.string_keyword]
          exact k.label_mem_kindLabels
        exact absurd hlabel (h.plain _ hmem)
    · rcases List.prefix_concat_iff.mp hpre with hall | hpart
      · exact hall.symm
      · have hmem : (⟨h.kind.keyword, h.gap⟩ : Token) ∈ ts := hpart.subset (by simp [tokens])
        have hlabel : h.kind.label ∈ k.modifiers :=
          hts.subset (List.mem_map.mpr ⟨_, hmem, h.kind.string_keyword⟩)
        exact absurd hlabel (h.kind.label_not_mem_modifiers k)
  obtain ⟨hmodifiers, hlast⟩ := List.append_inj' hsame rfl
  have hkind : k = h.kind := by
    refine DeclarationKind.label_injective ?_
    rw [← k.string_keyword, ← h.kind.string_keyword]
    exact congrArg Token.string (List.singleton_inj.mp hlast)
  refine ⟨hkind, ?_, hsame⟩
  rw [Introduces, ← hmodifiers, ← hkind]
  exact hts

theorem behind_mem_leading (hin : h.Introduces) (hrest : c.rest = h.front ++ X) :
    c.behind (tokensChars h.tokens) (h.name.chars ++ X) ∈ (leading h.kind).outcomes c := by
  have hwords : (leading h.kind).Admits (tokensChars h.tokens) (h.name.chars ++ X) := by
    rw [tokens, tokensChars_append, leading, ← h.kind.string_keyword]
    exact (admits_optionalWords hin).append (admits_wordPattern _ _)
  exact hwords c (by rw [hrest, front, List.append_assoc])

/-- Where no name stands, the match goes no further. -/
theorem run_capture_name_eq_none {α : Type} {q : Pattern} {next : Cursor → Option α}
    (hd : ¬ ∀ c ∈ d.rest.head?, isWord c = true) :
    (capture 1 Pattern.name ++ q).run d next = none := by
  refine run_eq_none_of_startsWith ((startsWith_capture_name 1).append q) fun x hx => ?_
  by_contra hword
  refine hd fun y hy => ?_
  rw [Option.mem_unique hy hx]
  exact Bool.not_eq_false _ ▸ hword

variable {α : Type} {q : Pattern} {next : Cursor → Option α}

/-- **The name is read, and the match is decided behind it.** -/
theorem run_headed (hq : StartsWith (!isWord ·) q) (hX : ∀ c ∈ X.head?, isWord c = false)
    (hstart : StartsLine c.before) (hrest : c.rest = h.front ++ X) (hin : h.Introduces) :
    (headed h.kind q).run c next = q.run (h.behindName c X) next := by
  have hrun : (headed h.kind q).run c next =
      if c.before.isNone || c.before == some '\n' then
        (leading h.kind).run c fun d => (capture 1 Pattern.name ++ q).run d next
      else none := rfl
  rw [hrun, if_pos (startsLine_iff.mpr hstart)]
  have hmem := behind_mem_leading hin hrest
  rw [run_eq_of_mem (fun d => (capture 1 Pattern.name ++ q).run d next) hmem]
  · -- The whole name is read: behind a part of it stands a character of the name.
    have hname : (capture 1 Pattern.name ++ q).run
          (c.behind (tokensChars h.tokens) (h.name.chars ++ X)) next =
        Pattern.name.run (c.behind (tokensChars h.tokens) (h.name.chars ++ X)) fun e =>
          q.run (e.record 1 (c.behind (tokensChars h.tokens) (h.name.chars ++ X))) next := rfl
    rw [hname]
    have hwhole := (takes_word h.name hX).admits
      (c.behind (tokensChars h.tokens) (h.name.chars ++ X)) rfl
    refine (run_eq_of_mem _ hwhole fun e he => ?_).trans rfl
    have hsilent : Pattern.name.Silent := trivial
    have hword : Pattern.name.ReadsOnly (isWord · = true) := fun _ h => h
    obtain ⟨u, hu, hbehind, huword⟩ := exists_eq_behind hsilent hword _ e he
    rw [Cursor.behind_rest] at hu
    by_cases hend : ∀ x ∈ e.rest.head?, isWord x = false
    · have htake := congrArg (List.takeWhile isWord) hu
      rw [takeWhile_append h.name.word hX, takeWhile_append huword hend] at htake
      subst htake
      right
      rw [hbehind, ← List.append_cancel_left hu]
    · left
      refine run_eq_none fun f hf => ?_
      obtain ⟨x, xs, hxs, hx⟩ := hq _ f hf
      refine absurd (fun y hy => ?_) hend
      have hhead : e.rest.head? = some x := by
        rw [show e.rest = x :: xs from hxs, List.head?_cons]
      rw [Option.mem_unique hy hhead]
      simpa using hx
  · intro d hd
    by_cases hword : ∀ x ∈ d.rest.head?, isWord x = true
    · obtain ⟨ts, g, hts, hread, hbehind⟩ := exists_tokens_of_mem_leading hd
      obtain ⟨-, -, hsame⟩ := tokens_eq hts hword (hread.symm.trans hrest)
      right
      rw [hsame] at hread hbehind
      rw [hrest, front, List.append_assoc] at hread
      rw [hbehind, ← List.append_cancel_left hread]
    · exact Or.inl (run_capture_name_eq_none hword)

/-- **Other words than those of the kind are not read.** -/
theorem run_headed_eq_none (hrest : c.rest = h.front ++ X)
    (hother : ¬ (k = h.kind ∧ h.Introduces)) : (headed k q).run c next = none := by
  have hrun : (headed k q).run c next =
      if c.before.isNone || c.before == some '\n' then
        (leading k).run c fun d => (capture 1 Pattern.name ++ q).run d next
      else none := rfl
  rw [hrun]
  split
  · refine run_eq_none fun d hd => ?_
    by_cases hword : ∀ x ∈ d.rest.head?, isWord x = true
    · obtain ⟨ts, g, hts, hread, -⟩ := exists_tokens_of_mem_leading hd
      obtain ⟨hkind, hin, -⟩ := tokens_eq hts hword (hread.symm.trans hrest)
      exact absurd ⟨hkind, hin⟩ hother
    · exact run_capture_name_eq_none hword
  · rfl

/-- Where nothing is found behind the name, nothing is found. -/
theorem run_headed_eq_none_of_behindName (hq : StartsWith (!isWord ·) q)
    (hX : ∀ c ∈ X.head?, isWord c = false) (hrest : c.rest = h.front ++ X)
    (hnone : k = h.kind → q.run (h.behindName c X) next = none) :
    (headed k q).run c next = none := by
  by_cases hin : k = h.kind ∧ h.Introduces
  · obtain ⟨rfl, hin⟩ := hin
    by_cases hstart : StartsLine c.before
    · rw [run_headed hq hX hstart hrest hin]
      exact hnone rfl
    · exact if_neg (mt startsLine_iff.mp hstart)
  · exact run_headed_eq_none hrest hin

end Head

/-! ## Where nothing is found -/

theorem firstWord_tokensChars (t : Token) (ts : List Token) (r : List Char) :
    firstWord (tokensChars (t :: ts) ++ r) = t.name.chars := by
  have hword : ∀ c ∈ t.name.chars, (!isBlank c) = true := fun c hc => by
    rw [isBlank_eq_false_of_isWord (t.name.word c hc), Bool.not_false]
  have hgap : ∀ c ∈ (t.gap.chars ++ (tokensChars ts ++ r)).head?, (!isBlank c) = false :=
    fun c hc => by rw [t.gap.head_blank _ c hc, Bool.not_true]
  rw [tokensChars_cons, List.append_assoc, List.append_assoc]
  exact takeWhile_append hword hgap

theorem opens_of_mem_leading (h : d ∈ (leading k).outcomes c) : Opens c.rest := by
  obtain ⟨ts, g, hts, hrest, -⟩ := exists_tokens_of_mem_leading h
  have hmodifiers : k.modifiers ⊆ openers := by cases k <;> decide
  have hlabel : k.keyword.string ∈ openers := by cases k <;> decide
  cases ts with
  | nil =>
    rw [Opens, hrest, List.nil_append, firstWord_tokensChars]
    exact hlabel
  | cons t ts =>
    rw [Opens, hrest, List.cons_append, firstWord_tokensChars]
    exact hmodifiers (hts.subset List.mem_cons_self)

/-- **Nothing is found but where a line starts like a declaration.** -/
theorem matchHere_headed_eq_none {q : Pattern} {before : Option Char} {rest : List Char}
    (h : ¬ (StartsLine before ∧ Opens rest)) (offset : Nat) :
    (headed k q).matchHere before offset rest = none := by
  by_contra hm
  obtain ⟨m, hm⟩ := Option.ne_none_iff_exists'.mp hm
  obtain ⟨d, hd, -⟩ := exists_outcome_of_matchHere hm
  obtain ⟨e, he, hd⟩ := mem_outcomes_append.mp hd
  obtain ⟨hstart, rfl⟩ := mem_outcomes_here.mp he
  obtain ⟨f, hf, -⟩ := mem_outcomes_append.mp hd
  exact h ⟨startsLine_iff.mp hstart, opens_of_mem_leading hf⟩

end Head

end PlanAudit.Types
