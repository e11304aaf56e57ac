import Mathlib.Data.List.TakeWhile
import PlanAudit.Proofs.Types.Heads

/-!
# Finding the body of a declaration

What stands between a name and a brace is read in one of a few forms, and a body reaches from its
brace to the first closing brace at the start of a line.

## Main definitions

* `blockPattern k`: the pattern of a declaration of the kind with a body in braces
* `inFront k`: what is read between a name and the brace

## Main results

* `run_inFront`, `run_inFront_eq_none`: the body behind a brace is found exactly if what stands in
  front of the brace has one of these forms
-/

namespace PlanAudit.Types

open Text Pattern

/-! ## The patterns by kind -/

/-- The pattern of a declaration of the kind with a body in braces. -/
def blockPattern : DeclarationKind → Pattern
  | .interface => interfaceBlock
  | .alias => objectAlias
  | .enumeration => enumBlock
  | .classType => classBlock

/-- The type parameters of an alias. -/
def aliasParameters : Pattern := opt (char '<' ++ plus (one (· != '>')) ++ char '>')

/-- What is read between a name and an equals sign, and the sign. -/
def equation : Pattern := aliasParameters ++ (blanks ++ char '=')

/-- What is read between a name and the brace. -/
def inFront : DeclarationKind → Pattern
  | .interface => typeParameters ++ (interfaceHeritage ++ blanks)
  | .alias => equation ++ blanks
  | .enumeration => blanks
  | .classType => classHeritage ++ blanks

theorem matchHere_blockPattern (k : DeclarationKind) :
    (blockPattern k).matchHere = (headed k (inFront k ++ bracedBody 2)).matchHere := by
  cases k <;> rfl

theorem matchHere_otherAlias :
    otherAlias.matchHere = (headed .alias (equation ++ one (· != '{'))).matchHere := rfl

/-! ## Bodies -/

section Body

variable {c : Cursor} {body t : List Char}

/-- The cursor behind a body in braces. -/
def behindBody (c : Cursor) (body t : List Char) : Cursor :=
  (((c.behind ['{'] (body ++ '}' :: t)).behind body ('}' :: t)).record 2
    (c.behind ['{'] (body ++ '}' :: t))).behind ['}'] t

/-- A body reaches to the first closing brace at the start of a line. -/
theorem run_bracedBody {α : Type} {next : Cursor → Option α} {a : α}
    (hbody : ∀ line ∈ body.splitOn '\n', line.head? ≠ some '}')
    (hfeed : body.getLast? = some '\n') (hrest : c.rest = '{' :: (body ++ '}' :: t))
    (hnext : next (behindBody c body t) = some a) : (bracedBody 2).run c next = some a := by
  have hrun : (bracedBody 2).run c next = (char '{').run c fun d =>
      (starLazy anything).run d fun e => (lineStart ++ char '}').run (e.record 2 d) next := rfl
  rw [hrun]
  exact takes_char '{' α c _ a hrest
    (run_body (not_infix_of_parts hbody) hfeed rfl rfl hnext)

theorem startsWith_bracedBody : StartsWith (· == '{') (bracedBody 2) :=
  ((startsWith_one.append _).append _).append _

end Body

/-! ## What is read in front of the brace -/

section Front

variable {c d : Cursor} {w t : List Char}

theorem admits_blanks (hw : Blank w) : blanks.Admits w t := admits_loop_one hw (Nat.zero_le _)

theorem admits_blanks1 (g : Gap) : blanks1.Admits g.chars t :=
  admits_loop_one g.blank (List.length_pos_of_ne_nil g.ne_nil)

/-- Between angle brackets a loop can read what is long enough. -/
theorem admits_angled {accepts : Char → Bool} {greedy : Bool} {least : Nat} {p : List Char}
    (hp : ∀ x ∈ p, accepts x = true) (hleast : least ≤ p.length) :
    (opt (char '<' ++ loop greedy least none (one accepts) ++ char '>')).Admits
      ('<' :: (p ++ ['>'])) t := by
  have hangled : (char '<' ++ loop greedy least none (one accepts) ++ char '>').Admits
      (['<'] ++ p ++ ['>']) t :=
    ((takes_char '<').admits.append (admits_loop_one hp hleast)).append (takes_char '>').admits
  exact hangled.opt (by simp)

theorem exists_parameters_of_mem (h : d ∈ typeParameters.outcomes c) :
    ∃ w, c.Reads w d ∧ Parameters w := by
  rcases eq_or_mem_of_mem_opt h with rfl | h
  · exact ⟨[], Cursor.Reads.refl d, Or.inl rfl⟩
  · obtain ⟨e, he, hde⟩ := mem_outcomes_append.mp h
    obtain ⟨f, hf, hfe⟩ := mem_outcomes_append.mp he
    obtain ⟨p, hp, -⟩ := exists_reads (readsOnly_true _) f e hfe
    exact ⟨_, ((reads_of_mem_char hf).trans hp).trans (reads_of_mem_char hde), Or.inr ⟨p, rfl⟩⟩

theorem admits_typeParameters (hw : Parameters w) (hbrace : '{' ∉ w) :
    typeParameters.Admits w t := by
  rcases hw with rfl | ⟨p, rfl⟩
  · exact admits_opt_nil
  · refine admits_angled (fun x hx => ?_) (Nat.zero_le _)
    refine bne_iff_ne.mpr fun heq => hbrace ?_
    rw [← heq]
    simp [hx]

theorem exists_heritage_of_mem (h : d ∈ interfaceHeritage.outcomes c) :
    ∃ w, c.Reads w d ∧ Heritage w := by
  rcases eq_or_mem_of_mem_opt h with rfl | h
  · exact ⟨[], Cursor.Reads.refl d, Or.inl rfl⟩
  · obtain ⟨e, he, hde⟩ := mem_outcomes_append.mp h
    obtain ⟨f, hf, hfe⟩ := mem_outcomes_append.mp he
    obtain ⟨b, hb, hbf⟩ := mem_outcomes_append.mp hf
    obtain ⟨g₁, hg₁⟩ := exists_gap_of_mem_blanks1 hb
    obtain ⟨g₂, hg₂⟩ := exists_gap_of_mem_blanks1 hfe
    obtain ⟨q, hq, hne, hchars⟩ := exists_reads_of_mem_plus hde
    refine ⟨_, ((hg₁.trans (reads_of_mem_lit hbf)).trans hg₂).trans hq,
      Or.inr ⟨g₁, g₂, q, ?_, hne, hchars⟩⟩
    simp only [List.append_assoc]

theorem admits_interfaceHeritage (hw : Heritage w) : interfaceHeritage.Admits w t := by
  rcases hw with rfl | ⟨g₁, g₂, q, rfl, hne, hchars⟩
  · exact admits_opt_nil
  · have hone : (blanks1 ++ lit "extends" ++ blanks1 ++ plus (one isHeritageChar)).Admits
        (g₁.chars ++ "extends".toList ++ g₂.chars ++ q) t :=
      (((admits_blanks1 g₁).append (takes_lit "extends").admits).append (admits_blanks1 g₂)).append
        (admits_loop_one hchars (List.length_pos_of_ne_nil hne))
    rw [List.append_assoc, List.append_assoc] at hone
    exact hone.opt (by simp [g₁.ne_nil])

theorem exists_flatParameters_of_mem (h : d ∈ aliasParameters.outcomes c) :
    ∃ w, c.Reads w d ∧ FlatParameters w := by
  rcases eq_or_mem_of_mem_opt h with rfl | h
  · exact ⟨[], Cursor.Reads.refl d, Or.inl rfl⟩
  · obtain ⟨e, he, hde⟩ := mem_outcomes_append.mp h
    obtain ⟨f, hf, hfe⟩ := mem_outcomes_append.mp he
    obtain ⟨p, hp, hne, hflat⟩ := exists_reads_of_mem_plus hfe
    refine ⟨_, ((reads_of_mem_char hf).trans hp).trans (reads_of_mem_char hde),
      Or.inr ⟨p, rfl, hne, fun hmem => ?_⟩⟩
    exact absurd (hflat _ hmem) (by decide)

theorem admits_aliasParameters (hw : FlatParameters w) : aliasParameters.Admits w t := by
  rcases hw with rfl | ⟨p, rfl, hne, hflat⟩
  · exact admits_opt_nil
  · refine admits_angled (fun x hx => ?_) (List.length_pos_of_ne_nil hne)
    exact bne_iff_ne.mpr fun heq => hflat (heq ▸ hx)

end Front

/-! ## Interfaces and enumerations -/

section Interface

variable {c : Cursor} {a r : List Char}

theorem readsOnly_one_ne {accepts : Char → Bool} {x : Char} (h : accepts x = false) :
    (one accepts).ReadsOnly (· ≠ x) := by
  rintro y hy rfl
  rw [h] at hy
  cases hy

theorem readsOnly_inFront_interface : (inFront .interface).ReadsOnly (· ≠ '{') := by
  have hheritage : interfaceHeritage.ReadsOnly (· ≠ '{') :=
    ⟨⟨⟨readsOnly_one_ne (by decide), readsOnly_litChars (by decide)⟩, readsOnly_one_ne (by decide)⟩,
      readsOnly_one_ne (by decide)⟩
  have hparameters : typeParameters.ReadsOnly (· ≠ '{') :=
    ⟨⟨readsOnly_one_ne (by decide), readsOnly_one_ne (by decide)⟩, readsOnly_one_ne (by decide)⟩
  exact ⟨hparameters, hheritage, readsOnly_one_ne (by decide)⟩

theorem silent_inFront_interface : (inFront .interface).Silent := by
  simp [inFront, typeParameters, interfaceHeritage, blanks, blanks1, opt, Pattern.star, plus,
    starLazy, char]

theorem behind_mem_inFront_interface_iff (hbrace : '{' ∉ a) (hrest : c.rest = a ++ '{' :: r) :
    c.behind a ('{' :: r) ∈ (inFront .interface).outcomes c ↔ Continues .interface a := by
  constructor
  · intro h
    obtain ⟨e, he, h⟩ := mem_outcomes_append.mp h
    obtain ⟨f, hf, h⟩ := mem_outcomes_append.mp h
    obtain ⟨params, hparams, hp⟩ := exists_parameters_of_mem he
    obtain ⟨heritage, hheritage, hh⟩ := exists_heritage_of_mem hf
    obtain ⟨gap, hgap, hg⟩ := exists_reads_of_mem_blanks h
    have hread := (hparams.trans (hheritage.trans hgap)).rest_eq
    rw [hrest, Cursor.behind_rest] at hread
    rw [List.append_cancel_right hread]
    exact .interface hp hh hg
  · rintro (⟨hp, hh, hg⟩)
    have hparams : '{' ∉ _ := fun hmem => hbrace (List.mem_append_left _ hmem)
    exact ((admits_typeParameters hp hparams).append
      ((admits_interfaceHeritage hh).append (admits_blanks hg))) c hrest

end Interface

section Brace

variable {α : Type} {next : Cursor → Option α} {c : Cursor} {a r : List Char}

theorem behind_mem_blanks_iff (hrest : c.rest = a ++ r) :
    c.behind a r ∈ blanks.outcomes c ↔ Blank a := by
  constructor
  · intro h
    obtain ⟨w, hw, hblank⟩ := exists_reads_of_mem_blanks h
    have hread := hw.rest_eq
    rw [hrest, Cursor.behind_rest] at hread
    rwa [List.append_cancel_right hread]
  · exact fun h => admits_blanks h c hrest

theorem run_blanks_bracedBody (hbrace : '{' ∉ a) (hrest : c.rest = a ++ '{' :: r)
    (hblank : Blank a) : (blanks ++ bracedBody 2).run c next =
      (bracedBody 2).run (c.behind a ('{' :: r)) next :=
  run_append_of_stop trivial (readsOnly_one_ne (by decide)) startsWith_bracedBody hbrace hrest
    ((behind_mem_blanks_iff hrest).mpr hblank)

theorem run_blanks_bracedBody_eq_none (hbrace : '{' ∉ a) (hrest : c.rest = a ++ '{' :: r)
    (hblank : ¬ Blank a) : (blanks ++ bracedBody 2).run c next = none :=
  run_append_eq_none_of_stop trivial (readsOnly_one_ne (by decide)) startsWith_bracedBody hbrace
    hrest (mt (behind_mem_blanks_iff hrest).mp hblank)

end Brace

/-! ## Classes -/

section Class

variable {α : Type} {next : Cursor → Option α} {b : α} {c : Cursor} {a r : List Char}

/-- What introduces the parents of a class. -/
def heirWord : Pattern := blanks1 ++ (lit "extends" ||| lit "implements")

theorem takes_heirWord (g : Gap) {w : String} (hw : w ∈ ["extends", "implements"])
    {t : List Char} : heirWord.Takes (g.chars ++ w.toList) t := by
  have hletter : ∀ c ∈ (w.toList ++ t).head?, isBlank c = false := by
    rcases List.mem_pair.mp hw with rfl | rfl <;> exact forall_head?_cons (by decide)
  refine (takes_gap g hletter).append ?_
  rcases List.mem_pair.mp hw with rfl | rfl
  · exact (takes_lit "extends").or_left
  · refine (takes_lit "implements").or_right fun α c next hrest => run_lit_eq_none next ?_
    rw [hrest]
    exact fun hpre => absurd (List.cons_prefix_cons.mp hpre).1 (by decide)

theorem run_inFront_heir (g : Gap) {w : String} (hw : w ∈ ["extends", "implements"])
    {z : List Char} (hbrace : '{' ∉ z)
    (hrest : c.rest = (g.chars ++ (w.toList ++ z)) ++ '{' :: r)
    (hnext : (bracedBody 2).run (c.behind (g.chars ++ (w.toList ++ z)) ('{' :: r)) next = some b) :
    (inFront .classType ++ bracedBody 2).run c next = some b := by
  have hrun : (inFront .classType ++ bracedBody 2).run c next =
      (opt (heirWord ++ starLazy anything)).run c fun d =>
        (blanks ++ bracedBody 2).run d next := rfl
  have hstop : ∀ u s,
      (if ((c.behind (g.chars ++ w.toList) (z ++ '{' :: r)).behind u s).offset = c.offset then none
        else (blanks ++ bracedBody 2).run
          ((c.behind (g.chars ++ w.toList) (z ++ '{' :: r)).behind u s) next) =
      (blanks ++ bracedBody 2).run (c.behind (g.chars ++ (w.toList ++ u)) s) next := by
    intro u s
    rw [Cursor.behind_behind, List.append_assoc]
    refine if_neg ?_
    have hlen := List.length_pos_of_ne_nil g.ne_nil
    rw [Cursor.behind_offset, List.length_append]
    omega
  have hheir : (heirWord ++ starLazy anything).run c (fun d =>
      if d.offset = c.offset then none else (blanks ++ bracedBody 2).run d next) = some b := by
    refine takes_heirWord g hw α c _ b (t := z ++ '{' :: r) (by simp [hrest]) ?_
    -- The parents are read up to the white space in front of the brace, or up to the brace.
    refine run_starLazy_of_forall rfl (fun u v huv => ?_) ?_
    · rw [hstop]
      have hv : '{' ∉ v := fun hmem => hbrace (by simp [huv, hmem])
      by_cases hblank : Blank v
      · right
        rw [run_blanks_bracedBody hv rfl hblank, Cursor.behind_behind, ← hnext, huv]
        simp only [List.append_assoc]
      · exact Or.inl (run_blanks_bracedBody_eq_none hv rfl hblank)
    · have hnone : Blank [] := fun x hx => nomatch hx
      rw [hstop, run_blanks_bracedBody (a := []) (by simp) rfl hnone, Cursor.behind_behind, ← hnext,
        List.append_nil]
  rw [hrun, run_opt, hheir, Option.some_or]

/-- A word that introduces the parents of a class stands in front of the first brace. -/
theorem exists_heir_of_mem {d : Cursor} (hrest : c.rest = a ++ '{' :: r)
    (h : d ∈ (heirWord ++ starLazy anything).outcomes c) :
    ∃ (g : Gap) (w : String) (z : List Char), w ∈ ["extends", "implements"] ∧
      a = g.chars ++ (w.toList ++ z) := by
  obtain ⟨f, hf, -⟩ := mem_outcomes_append.mp h
  obtain ⟨e, he, hef⟩ := mem_outcomes_append.mp hf
  obtain ⟨g, hg⟩ := exists_gap_of_mem_blanks1 he
  obtain ⟨w, hw, hread⟩ : ∃ w ∈ ["extends", "implements"], e.Reads w.toList f := by
    rcases mem_outcomes_alt.mp hef with h | h
    · exact ⟨_, List.mem_cons_self, reads_of_mem_lit h⟩
    · exact ⟨_, List.mem_cons_of_mem _ List.mem_cons_self, reads_of_mem_lit h⟩
  have hplain : '{' ∉ g.chars ++ w.toList := by
    have hgap : '{' ∉ g.chars := fun hmem => absurd (g.blank _ hmem) (by decide)
    have hword : '{' ∉ w.toList := by rcases List.mem_pair.mp hw with rfl | rfl <;> decide
    exact fun hmem => (List.mem_append.mp hmem).elim hgap hword
  have heq := (hg.trans hread).rest_eq
  rw [hrest] at heq
  obtain ⟨z, rfl⟩ := exists_eq_append_of_not_mem hplain heq.symm
  exact ⟨g, w, z, hw, List.append_assoc _ _ _⟩

theorem run_inFront_classType_of_blank (hblank : Blank a) (hrest : c.rest = a ++ '{' :: r) :
    (inFront .classType ++ bracedBody 2).run c next =
      (bracedBody 2).run (c.behind a ('{' :: r)) next := by
  have hrun : (inFront .classType ++ bracedBody 2).run c next =
      (opt (heirWord ++ starLazy anything)).run c fun d =>
        (blanks ++ bracedBody 2).run d next := rfl
  have hnone : ∀ next' : Cursor → Option α,
      (heirWord ++ starLazy anything).run c next' = none := by
    refine fun next' => run_eq_none fun d hd => ?_
    obtain ⟨g, w, z, hw, rfl⟩ := exists_heir_of_mem hrest hd
    have hletter : ∃ x ∈ w.toList, isBlank x = false := by
      rcases List.mem_pair.mp hw with rfl | rfl <;> decide
    obtain ⟨x, hx, hletter⟩ := hletter
    rw [hblank x (by simp [hx])] at hletter
    cases hletter
  have hbrace : '{' ∉ a := fun hmem => absurd (hblank _ hmem) (by decide)
  rw [hrun, run_opt, hnone, Option.none_or, run_blanks_bracedBody hbrace hrest hblank]

theorem run_inFront_classType_eq_none (hbrace : '{' ∉ a) (hrest : c.rest = a ++ '{' :: r)
    (h : ¬ Continues .classType a) : (inFront .classType ++ bracedBody 2).run c next = none := by
  have hrun : (inFront .classType ++ bracedBody 2).run c next =
      (opt (heirWord ++ starLazy anything)).run c fun d =>
        (blanks ++ bracedBody 2).run d next := rfl
  rw [hrun]
  refine run_eq_none fun d hd => ?_
  rcases eq_or_mem_of_mem_opt hd with rfl | hd
  · exact run_blanks_bracedBody_eq_none hbrace hrest fun hblank => h (.classType hblank)
  · obtain ⟨g, w, z, hw, rfl⟩ := exists_heir_of_mem hrest hd
    exact absurd (.heir g hw z) h

end Class

/-! ## Equations -/

section Equation

variable {α : Type} {next : Cursor → Option α} {c d : Cursor} {a u v r s : List Char}

theorem exists_of_mem_equation (h : d ∈ equation.outcomes c) :
    ∃ u, BeforeEquals u ∧ c.rest = u ++ '=' :: d.rest ∧ d = c.behind (u ++ ['=']) d.rest := by
  obtain ⟨e, he, hde⟩ := mem_outcomes_append.mp h
  obtain ⟨f, hf, hdf⟩ := mem_outcomes_append.mp hde
  obtain ⟨params, hparams, hp⟩ := exists_flatParameters_of_mem he
  obtain ⟨gap, hgap, hg⟩ := exists_reads_of_mem_blanks hf
  have hread := (hparams.trans hgap).trans (reads_of_mem_char hdf)
  refine ⟨params ++ gap, ⟨params, gap, rfl, hp, hg⟩, by simpa using hread.rest_eq, ?_⟩
  exact eq_behind_of_reads
    (by simp [equation, aliasParameters, blanks, opt, Pattern.star, plus, char]) h hread

theorem behind_mem_equation (hu : BeforeEquals u) (hrest : c.rest = u ++ '=' :: s) :
    c.behind (u ++ ['=']) s ∈ equation.outcomes c := by
  obtain ⟨params, gap, rfl, hp, hg⟩ := hu
  have hadmits := (admits_aliasParameters hp).append
    ((admits_blanks hg).append (takes_char '=').admits) (t := s)
  rw [← List.append_assoc] at hadmits
  exact hadmits c (by simp [hrest])

theorem blank_unique (hu : Blank u) (hv : Blank v) {x y : Char} (hx : isBlank x = false)
    (hy : isBlank y = false) (h : u ++ x :: r = v ++ y :: s) : u = v ∧ x = y := by
  have htake := congrArg (List.takeWhile isBlank) h
  rw [takeWhile_append hu (forall_head?_cons hx),
    takeWhile_append hv (forall_head?_cons hy)] at htake
  subst htake
  exact ⟨rfl, (List.cons.inj (List.append_cancel_left h)).1⟩

/-- **The equals sign behind a name is the only one that can be read.** -/
theorem BeforeEquals.unique (hu : BeforeEquals u) (hv : BeforeEquals v)
    (h : u ++ '=' :: r = v ++ '=' :: s) : u = v := by
  have hangle : ∀ {w p : List Char} {r s : List Char}, Blank w →
      w ++ '=' :: r ≠ '<' :: p ++ s := by
    intro w p r s hw heq
    cases w with
    | nil => exact absurd (List.cons.inj heq).1 (by decide)
    | cons x w =>
      obtain ⟨rfl, -⟩ := List.cons.inj heq
      exact absurd (hw _ List.mem_cons_self) (by decide)
  obtain ⟨params, gap, rfl, hp, hg⟩ := hu
  obtain ⟨params', gap', rfl, hp', hg'⟩ := hv
  -- Both start with type parameters, or neither does.
  rcases hp with rfl | ⟨p, rfl, -, hflat⟩ <;> rcases hp' with rfl | ⟨p', rfl, -, hflat'⟩
  · exact (blank_unique hg hg' (by decide) (by decide) h).1
  · rw [List.append_assoc] at h
    exact absurd h (hangle hg)
  · rw [List.append_assoc] at h
    exact absurd h.symm (hangle hg')
  · simp only [List.cons_append, List.append_assoc, List.cons.injEq, true_and] at h
    obtain ⟨rfl, hrest⟩ := eq_of_append_cons_eq hflat hflat' h
    rw [(blank_unique hg hg' (by decide) (by decide) hrest).1]

/-- Type parameters that are closed in front of a character end there. -/
theorem not_beforeEquals {x : Char} (hx : isBlank x = false) (hopen : x ≠ '<')
    (hangle : a.head? = some '<' → '>' ∈ a) : ¬ BeforeEquals (a ++ x :: v) := by
  rintro ⟨params, gap, heq, hp, hg⟩
  rcases hp with rfl | ⟨p, rfl, -, hflat⟩
  · rw [List.nil_append] at heq
    have hblank := hg x (by simp [← heq])
    rw [hx] at hblank
    cases hblank
  · cases a with
    | nil => exact hopen (List.cons.inj heq).1
    | cons y a =>
      rw [List.cons_append, List.cons_append, List.cons.injEq] at heq
      obtain ⟨rfl, htail⟩ := heq
      -- The parameters end at the first closing bracket, behind which there is only white space.
      have hmem : '>' ∈ a := by simpa using hangle rfl
      obtain ⟨l, m, rfl, hl⟩ := List.eq_append_cons_of_mem hmem
      simp only [List.append_assoc, List.cons_append, List.nil_append] at htail
      obtain ⟨-, hgap⟩ := eq_of_append_cons_eq hl hflat htail
      have hblank := hg x (by simp [← hgap])
      rw [hx] at hblank
      cases hblank

/-- **The equals sign is read in front of a character that ends the head**, or it is that
character. -/
theorem BeforeEquals.confined (hu : BeforeEquals u) {x : Char} (hx : isBlank x = false)
    (hopen : x ≠ '<') (hangle : a.head? = some '<' → '>' ∈ a)
    (h : a ++ x :: r = u ++ '=' :: s) :
    (∃ z, a = u ++ '=' :: z ∧ s = z ++ x :: r) ∨ (x = '=' ∧ a = u ∧ r = s) := by
  -- What is read in front of the sign stops inside the head, at its end, or goes beyond it.
  rcases List.append_eq_append_iff.mp h with ⟨z, rfl, hz⟩ | ⟨z, rfl, hz⟩
  · cases z with
    | nil =>
      obtain ⟨rfl, rfl⟩ := List.cons.inj hz
      exact Or.inr ⟨rfl, (List.append_nil a).symm, rfl⟩
    | cons y z =>
      obtain ⟨rfl, -⟩ := List.cons.inj hz
      exact absurd hu (not_beforeEquals hx hopen hangle)
  · cases z with
    | nil =>
      obtain ⟨rfl, rfl⟩ := List.cons.inj hz
      exact Or.inr ⟨rfl, List.append_nil u, rfl⟩
    | cons y z =>
      obtain ⟨rfl, rfl⟩ := List.cons.inj hz
      exact Or.inl ⟨z, rfl, rfl⟩

/-- Behind the equals sign the rest of the match decides. -/
theorem run_equation {q : Pattern} (hu : BeforeEquals u) (hrest : c.rest = u ++ '=' :: s) :
    (equation ++ q).run c next = q.run (c.behind (u ++ ['=']) s) next := by
  refine run_eq_of_mem (fun d => q.run d next) (behind_mem_equation hu hrest) fun d hd => ?_
  obtain ⟨v, hv, hread, hbehind⟩ := exists_of_mem_equation hd
  rw [hrest] at hread
  obtain rfl := hu.unique hv hread
  obtain ⟨-, hs⟩ := List.cons.inj (List.append_cancel_left hread)
  right
  rw [hbehind, ← hs]

end Equation

/-! ## From the name to the body -/

section Front

variable {α : Type} {next : Cursor → Option α} {b : α} {c : Cursor} {k : DeclarationKind}
  {a r : List Char}

/-- A name ends in front of what is read behind it. -/
theorem startsWith_equation (q : Pattern) : StartsWith (!isWord ·) (equation ++ q) := by
  have hparameters : StartsWith (!isWord ·) (char '<' ++ plus (one (· != '>')) ++ char '>') :=
    ((startsWith_char (by decide)).append _).append _
  have hsign : StartsWith (!isWord ·) (blanks ++ char '=') :=
    StartsWith.loop_append (startsWith_one_of not_isWord_of_isBlank) (startsWith_char (by decide))
  exact (StartsWith.loop_append hparameters hsign).append q

theorem startsWith_inFront (k : DeclarationKind) :
    StartsWith (!isWord ·) (inFront k ++ bracedBody 2) := by
  have hbody : StartsWith (!isWord ·) (bracedBody 2) :=
    (((startsWith_char (by decide)).append _).append _).append _
  have hblanks : StartsWith (!isWord ·) (blanks ++ bracedBody 2) :=
    StartsWith.loop_append (startsWith_one_of not_isWord_of_isBlank) hbody
  have hgap : StartsWith (!isWord ·) blanks1 := startsWith_plus not_isWord_of_isBlank
  cases k with
  | interface =>
    have hparameters : StartsWith (!isWord ·) (char '<' ++ starLazy (one (· != '{')) ++ char '>') :=
      ((startsWith_char (by decide)).append _).append _
    have hheritage : StartsWith (!isWord ·) (interfaceHeritage ++ (blanks ++ bracedBody 2)) :=
      StartsWith.loop_append (((hgap.append _).append _).append _) hblanks
    exact StartsWith.assoc (StartsWith.loop_append hparameters (StartsWith.assoc hheritage))
  | «alias» => exact StartsWith.assoc (startsWith_equation _)
  | enumeration => exact hblanks
  | classType =>
    exact StartsWith.assoc (StartsWith.loop_append ((hgap.append _).append _) hblanks)

/-- **What is read in front of a brace leads to the body behind it.** -/
theorem run_inFront (hbrace : '{' ∉ a) (hrest : c.rest = a ++ '{' :: r) (h : Continues k a)
    (hbody : (bracedBody 2).run (c.behind a ('{' :: r)) next = some b) :
    (inFront k ++ bracedBody 2).run c next = some b := by
  cases h with
  | interface hp hh hg =>
    have hmem := (behind_mem_inFront_interface_iff hbrace hrest).mpr (.interface hp hh hg)
    exact (run_append_of_stop silent_inFront_interface readsOnly_inFront_interface
      startsWith_bracedBody hbrace hrest hmem).trans hbody
  | object hf hg =>
    rename_i front gap
    have hrun : (inFront .alias ++ bracedBody 2).run c next =
        (equation ++ (blanks ++ bracedBody 2)).run c next := rfl
    have hgap : '{' ∉ gap := fun hmem => hbrace (by simp [hmem])
    rw [hrun, run_equation hf (s := gap ++ '{' :: r) (by simp [hrest]),
      run_blanks_bracedBody hgap rfl hg, Cursor.behind_behind, ← hbody, List.append_assoc,
      List.singleton_append]
  | enumeration hg => exact (run_blanks_bracedBody hbrace hrest hg).trans hbody
  | classType hg => exact (run_inFront_classType_of_blank hg hrest).trans hbody
  | heir g hw z =>
    have hz : '{' ∉ z := fun hmem => hbrace (by simp [hmem])
    exact run_inFront_heir g hw hz hrest hbody

/-- **In other forms no body is found.** -/
theorem run_inFront_eq_none (hbrace : '{' ∉ a) (hangle : a.head? = some '<' → '>' ∈ a)
    (hrest : c.rest = a ++ '{' :: r) (h : ¬ Continues k a) :
    (inFront k ++ bracedBody 2).run c next = none := by
  cases k with
  | interface =>
    exact run_append_eq_none_of_stop silent_inFront_interface readsOnly_inFront_interface
      startsWith_bracedBody hbrace hrest (mt (behind_mem_inFront_interface_iff hbrace hrest).mp h)
  | «alias» =>
    have hrun : (inFront .alias ++ bracedBody 2).run c next =
        equation.run c fun d => (blanks ++ bracedBody 2).run d next := rfl
    rw [hrun]
    refine run_eq_none fun d hd => ?_
    obtain ⟨u, hu, hread, -⟩ := exists_of_mem_equation hd
    rw [hrest] at hread
    -- The equals sign stands in front of the brace, and something else between the two.
    rcases hu.confined (by decide) (by decide) hangle hread with ⟨z, rfl, hz⟩ | ⟨hsign, -⟩
    · have hz' : '{' ∉ z := fun hmem => hbrace (by simp [hmem])
      exact run_blanks_bracedBody_eq_none hz' hz fun hblank => h (.object hu hblank)
    · exact absurd hsign (by decide)
  | enumeration =>
    exact run_blanks_bracedBody_eq_none hbrace hrest fun hblank => h (.enumeration hblank)
  | classType => exact run_inFront_classType_eq_none hbrace hrest h

end Front

/-! ## Types behind an equals sign -/

section Value

variable {α : Type} {next : Cursor → Option α} {c : Cursor} {a r : List Char}

/-- What starts with no brace starts with another character behind white space. -/
theorem startsNoBrace_iff {w : List Char} : StartsNoBrace w ↔
    ∃ gap x r, w = gap ++ x :: r ∧ Blank gap ∧ isBlank x = false ∧ x ≠ '{' := by
  constructor
  · rintro ⟨hne, hbrace⟩
    obtain ⟨x, r, hx⟩ := List.exists_cons_of_ne_nil hne
    have hdrop : w.dropWhile isBlank = x :: r := hx
    have hhead := List.head?_dropWhile_not isBlank w
    refine ⟨w.takeWhile isBlank, x, r, ?_, fun c hc => List.mem_takeWhile_imp hc, ?_, ?_⟩
    · rw [← hdrop, List.takeWhile_append_dropWhile]
    · simpa [hdrop] using hhead
    · rintro rfl
      exact hbrace (by rw [hx, List.head?_cons])
  · rintro ⟨gap, x, r, rfl, hgap, hx, hbrace⟩
    have hstrip : stripStart (gap ++ x :: r) = x :: r :=
      dropWhile_append hgap (forall_head?_cons hx)
    rw [StartsNoBrace, hstrip]
    exact ⟨List.cons_ne_nil x r, fun heq => hbrace (Option.some.inj heq)⟩

theorem startsNoBrace_append {z v : List Char} (h : StartsNoBrace z) : StartsNoBrace (z ++ v) := by
  obtain ⟨gap, x, r, rfl, hgap, hx, hbrace⟩ := startsNoBrace_iff.mp h
  exact startsNoBrace_iff.mpr ⟨gap, x, r ++ v, by simp, hgap, hx, hbrace⟩

theorem startsNoBrace_append_equals {z v : List Char} (hbrace : '{' ∉ z) :
    StartsNoBrace (z ++ '=' :: v) := by
  have hdrop : stripStart (z ++ '=' :: v) = stripStart z ++ '=' :: v := by
    rw [stripStart, stripStart, List.dropWhile_append]
    split
    case isTrue hnil =>
      rw [List.isEmpty_iff.mp hnil, List.nil_append, List.dropWhile_cons_of_neg (by decide)]
    case isFalse => rfl
  rw [StartsNoBrace, hdrop]
  cases hz : stripStart z with
  | nil => exact ⟨by simp, by simp⟩
  | cons x s =>
    refine ⟨by simp, fun heq => hbrace ?_⟩
    obtain rfl : x = '{' := by simpa using heq
    exact (List.dropWhile_suffix isBlank).subset (by
      change '{' ∈ stripStart z
      simp [hz])

theorem run_blanks_bracedBody_of_startsNoBrace (h : StartsNoBrace c.rest) :
    (blanks ++ bracedBody 2).run c next = none := by
  refine run_eq_none (p := blanks) fun d hd => ?_
  obtain ⟨gap, x, r, hrest, hgap, hx, hbrace⟩ := startsNoBrace_iff.mp h
  obtain ⟨w, hw, hblank⟩ := exists_reads_of_mem_blanks hd
  -- A brace behind white space would be the first character that is none.
  refine run_eq_none_of_startsWith startsWith_bracedBody fun y hy => ?_
  by_contra hy'
  obtain rfl : y = '{' := by simpa using hy'
  obtain ⟨s, hs⟩ := List.head?_eq_some_iff.mp hy
  have hread := hw.rest_eq
  rw [hrest, hs] at hread
  exact hbrace (blank_unique hgap hblank hx (by decide) hread).2

/-- **A type that does not start with a brace has no body.** -/
theorem run_inFront_eq_none_of_equals (hbrace : '{' ∉ a) (hangle : a.head? = some '<' → '>' ∈ a)
    (hrest : c.rest = a ++ '=' :: r) (h : StartsNoBrace r) :
    (inFront .alias ++ bracedBody 2).run c next = none := by
  have hrun : (inFront .alias ++ bracedBody 2).run c next =
      equation.run c fun d => (blanks ++ bracedBody 2).run d next := rfl
  rw [hrun]
  refine run_eq_none fun d hd => run_blanks_bracedBody_of_startsNoBrace ?_
  obtain ⟨u, hu, hread, -⟩ := exists_of_mem_equation hd
  rw [hrest] at hread
  rcases hu.confined (by decide) (by decide) hangle hread with ⟨z, rfl, hz⟩ | ⟨-, -, hz⟩
  · rw [hz]
    exact startsNoBrace_append_equals fun hmem => hbrace (by simp [hmem])
  · rwa [← hz]

end Value

end PlanAudit.Types
