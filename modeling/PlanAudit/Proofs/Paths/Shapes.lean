import PlanAudit.Paths.Announcement
import PlanAudit.Proofs.Pattern.Choices
import PlanAudit.Proofs.Text.Segments

/-!
# Paths of allowed shapes

A shape is a path in which asterisks leave room for what may be new.  The pattern of a shape tries
its tokens with all the backtracking of patterns; what it accepts in the end are the paths that can
be cut into one piece for each token.

## Main definitions

* `WrittenAs`: the tokens of a written shape, where two asterisks that stand together are one token
* `Glob.Accepts`, `Fits`: the pieces that a token accepts, and the paths that tokens cut into pieces

## Main results

* `writtenAs_iff`: the tokens that are read are those that are written
* `mem_outcomes_tokens`: the outcomes of the tokens of a shape are the ways to cut a path
* `matchesAllowedNew_iff_fits`: a path is allowed exactly if it fits one of the shapes
* `allowed_shapes`: the same, with the shapes of directories and those without double asterisks
-/

namespace PlanAudit.Paths

open PlanAudit.Text Pattern

/-! ## Written shapes -/

/-- The tokens of a written shape, read from left to right: two asterisks that stand together are
one token, an asterisk that is left over is another, and all else stands for itself. -/
inductive WrittenAs : List Char → List Glob → Prop
  | nil : WrittenAs [] []
  | anyDepth {rest : List Char} {tokens : List Glob} :
      WrittenAs rest tokens → WrittenAs ('*' :: '*' :: rest) (.anyDepth :: tokens)
  | anySegment {rest : List Char} {tokens : List Glob} :
      rest.head? ≠ some '*' → WrittenAs rest tokens →
        WrittenAs ('*' :: rest) (.anySegment :: tokens)
  | literal {c : Char} {rest : List Char} {tokens : List Glob} :
      c ≠ '*' → WrittenAs rest tokens → WrittenAs (c :: rest) (.literal c :: tokens)

theorem writtenAs_ofChars (shape : List Char) : WrittenAs shape (Glob.ofChars shape) := by
  fun_induction Glob.ofChars shape with
  | case1 rest ih => exact .anyDepth ih
  | case2 rest hsingle ih =>
    refine .anySegment (fun hhead => ?_) ih
    obtain ⟨tail, rfl⟩ := List.head?_eq_some_iff.mp hhead
    exact hsingle tail rfl
  | case3 c rest _ hliteral ih => exact .literal hliteral ih
  | case4 => exact .nil

/-- **The tokens that are read are those that are written.** -/
theorem writtenAs_iff {shape : List Char} {tokens : List Glob} :
    WrittenAs shape tokens ↔ Glob.ofChars shape = tokens := by
  refine ⟨fun h => ?_, fun h => h ▸ writtenAs_ofChars shape⟩
  induction h with
  | nil => rfl
  | anyDepth _ ih => rw [Glob.ofChars, ih]
  | @anySegment rest tokens hsingle _ ih =>
    rw [Glob.ofChars, ih]
    rintro tail rfl
    exact hsingle rfl
  | literal hne _ ih =>
    rw [Glob.ofChars, ih]
    · rintro tail rfl
      exact absurd rfl hne
    · exact hne

/-- What holds no asterisk stands for itself. -/
theorem writtenAs_append {name rest : List Char} {tokens : List Glob} (hname : '*' ∉ name)
    (h : WrittenAs rest tokens) : WrittenAs (name ++ rest) (name.map .literal ++ tokens) := by
  induction name with
  | nil => exact h
  | cons c name ih =>
    obtain ⟨hne, hname⟩ := not_or.mp (mt List.mem_cons.mpr hname)
    exact .literal (Ne.symm hne) (ih hname)

/-! ## Paths in pieces -/

/-- The pieces of a path that a token accepts. -/
def Glob.Accepts : Glob → List Char → Prop
  | .anyDepth, _ => True
  | .anySegment, piece => '/' ∉ piece
  | .literal c, piece => piece = [c]

/-- The path can be cut into consecutive pieces that the tokens accept, one for each. -/
def Fits (tokens : List Glob) (path : List Char) : Prop :=
  ∃ pieces, List.Forall₂ Glob.Accepts tokens pieces ∧ pieces.flatten = path

theorem fits_nil {path : List Char} : Fits [] path ↔ path = [] := by
  constructor
  · rintro ⟨pieces, hpieces, rfl⟩
    cases hpieces
    rfl
  · rintro rfl
    exact ⟨[], .nil, rfl⟩

theorem fits_cons {t : Glob} {tokens : List Glob} {path : List Char} :
    Fits (t :: tokens) path ↔
      ∃ piece rest, t.Accepts piece ∧ path = piece ++ rest ∧ Fits tokens rest := by
  constructor
  · rintro ⟨pieces, hpieces, rfl⟩
    cases hpieces with
    | @cons _ piece _ pieces hpiece hpieces =>
      exact ⟨piece, pieces.flatten, hpiece, List.flatten_cons, pieces, hpieces, rfl⟩
  · rintro ⟨piece, rest, hpiece, rfl, pieces, hpieces, rfl⟩
    exact ⟨piece :: pieces, .cons hpiece hpieces, List.flatten_cons⟩

/-- What stands for itself is read as it is written. -/
theorem fits_literals_append {name : List Char} {tokens : List Glob} {path : List Char} :
    Fits (name.map .literal ++ tokens) path ↔ ∃ rest, path = name ++ rest ∧ Fits tokens rest := by
  induction name generalizing path with
  | nil => simp
  | cons c name ih =>
    rw [List.map_cons, List.cons_append, fits_cons]
    constructor
    · rintro ⟨piece, behind, rfl, rfl, hbehind⟩
      obtain ⟨rest, rfl, hrest⟩ := ih.mp hbehind
      exact ⟨rest, rfl, hrest⟩
    · rintro ⟨rest, rfl, hrest⟩
      exact ⟨[c], name ++ rest, rfl, rfl, ih.mpr ⟨rest, rfl, hrest⟩⟩

/-- Any path fits a double asterisk. -/
theorem fits_anyDepth (path : List Char) : Fits [.anyDepth] path :=
  fits_cons.mpr ⟨path, [], trivial, (List.append_nil path).symm, fits_nil.mpr rfl⟩

/-- Without double asterisks a path has the slashes that the shape has. -/
theorem count_slash_of_fits {shape path : List Char} {tokens : List Glob}
    (hshape : ¬ ['*', '*'] <:+: shape) (hwritten : WrittenAs shape tokens)
    (hfits : Fits tokens path) : path.count '/' = shape.count '/' := by
  induction hwritten generalizing path with
  | nil => rw [fits_nil.mp hfits]
  | anyDepth _ _ => exact absurd (List.prefix_append ['*', '*'] _).isInfix hshape
  | anySegment _ _ ih =>
    obtain ⟨piece, rest, hpiece, rfl, hrest⟩ := fits_cons.mp hfits
    have hbelow := ih (fun h => hshape (h.trans (List.suffix_cons _ _).isInfix)) hrest
    rw [List.count_append, List.count_eq_zero.mpr hpiece, Nat.zero_add, hbelow]
    exact (List.count_cons_of_ne (by decide)).symm
  | literal _ _ ih =>
    obtain ⟨piece, rest, rfl, rfl, hrest⟩ := fits_cons.mp hfits
    have hbelow := ih (fun h => hshape (h.trans (List.suffix_cons _ _).isInfix)) hrest
    rw [List.singleton_append, List.count_cons, List.count_cons, hbelow]

/-! ## What the patterns accept -/

section Outcomes

variable {c d : Cursor}

/-- On one line a token reads the pieces that it accepts. -/
theorem mem_outcomes_token {t : Glob} (hline : '\n' ∉ c.rest) :
    d ∈ t.pattern.outcomes c ↔
      ∃ piece rest, t.Accepts piece ∧ c.rest = piece ++ rest ∧ d = c.behind piece rest := by
  cases t with
  | anyDepth =>
    rw [Glob.pattern, mem_outcomes_star_one]
    constructor
    · rintro ⟨piece, rest, -, hrest, hd⟩
      exact ⟨piece, rest, trivial, hrest, hd⟩
    · rintro ⟨piece, rest, -, hrest, hd⟩
      refine ⟨piece, rest, fun x hx => bne_iff_ne.mpr ?_, hrest, hd⟩
      rintro rfl
      exact hline (hrest ▸ List.mem_append_left rest hx)
  | anySegment =>
    rw [Glob.pattern, mem_outcomes_star_one]
    simp only [Glob.Accepts, bne_iff_ne, ← List.forall_mem_ne']
  | literal x =>
    rw [Glob.pattern, Pattern.char, mem_outcomes_one]
    constructor
    · rintro ⟨y, rest, hrest, hy, hd⟩
      exact ⟨[y], rest, congrArg (fun z => [z]) (beq_iff_eq.mp hy), hrest, hd⟩
    · rintro ⟨_, rest, rfl, hrest, hd⟩
      exact ⟨x, rest, hrest, beq_self_eq_true x, hd⟩

/-- **The outcomes of the tokens of a shape** are the ways to cut what is left of a path. -/
theorem mem_outcomes_tokens {tokens : List Glob} (hline : '\n' ∉ c.rest) :
    d ∈ (chain (tokens.map Glob.pattern ++ [textEnd])).outcomes c ↔
      Fits tokens c.rest ∧ d = c.behind c.rest [] := by
  -- Induction on the tokens: the first one reads a piece, and the others cut what is behind it.
  induction tokens generalizing c with
  | nil =>
    have hend : (c.rest.isEmpty || c.rest == ['\n']) = true ↔ c.rest = [] := by
      rw [Bool.or_eq_true_iff, List.isEmpty_iff, beq_iff_eq]
      refine or_iff_left fun hfeed => hline ?_
      rw [hfeed]
      exact List.mem_singleton_self _
    refine mem_outcomes_here.trans ?_
    rw [hend, fits_nil]
    refine and_congr_right fun hnil => ?_
    rw [hnil, Cursor.behind_nil hnil]
  | cons t tokens ih =>
    rw [List.map_cons, List.cons_append, mem_outcomes_chain_cons, fits_cons]
    constructor
    · rintro ⟨e, he, hd⟩
      obtain ⟨piece, rest, hpiece, hrest, rfl⟩ := (mem_outcomes_token hline).mp he
      have hbelow : '\n' ∉ rest := fun h => hline (hrest ▸ List.mem_append_right piece h)
      obtain ⟨hfits, rfl⟩ := (ih hbelow).mp hd
      refine ⟨⟨piece, rest, hpiece, hrest, hfits⟩, ?_⟩
      rw [hrest]
      exact Cursor.behind_behind
    · rintro ⟨⟨piece, rest, hpiece, hrest, hfits⟩, rfl⟩
      have hbelow : '\n' ∉ rest := fun h => hline (hrest ▸ List.mem_append_right piece h)
      refine ⟨c.behind piece rest, (mem_outcomes_token hline).mpr ⟨piece, rest, hpiece, hrest, rfl⟩,
        (ih hbelow).mpr ⟨hfits, ?_⟩⟩
      rw [hrest]
      exact Cursor.behind_behind.symm

end Outcomes

/-- A path is allowed exactly if it fits the tokens of one of the shapes. -/
theorem matchesAllowedNew_iff_fits {path : String} (hpath : '\n' ∉ path.toList)
    {shapes : List String} :
    matchesAllowedNew path shapes = true ↔
      ∃ shape ∈ shapes, ∃ tokens, WrittenAs shape.toList tokens ∧ Fits tokens path.toList := by
  rw [matchesAllowedNew, List.any_eq_true]
  refine exists_congr fun shape => and_congr_right fun _ => ?_
  simp only [writtenAs_iff, exists_eq_left', globPattern]
  rw [matchesStart_iff]
  simp only [mem_outcomes_tokens (c := ⟨none, 0, path.toList, []⟩) hpath]
  exact exists_and_left.trans (and_iff_left ⟨_, rfl⟩)

/-- **Shapes allow what fits them.**  A path on one line is allowed exactly if it can be cut into
pieces along the tokens of one of the shapes.  So the shape of all that is below a directory allows
the paths that begin with the directory, and a shape without double asterisks only paths as deep as
itself. -/
theorem allowed_shapes (path : String) (hpath : '\n' ∉ path.toList) :
    (∀ shapes, matchesAllowedNew path shapes = true ↔
      ∃ shape ∈ shapes, ∃ tokens, WrittenAs shape.toList tokens ∧ Fits tokens path.toList) ∧
    (∀ directory : String, '*' ∉ directory.toList →
      (matchesAllowedNew path [directory ++ "/**"] = true ↔
        (directory ++ "/").toList <+: path.toList)) ∧
    ∀ shape : String, ¬ "**".toList <:+: shape.toList → matchesAllowedNew path [shape] = true →
      path.toList.count '/' = shape.toList.count '/' := by
  refine ⟨fun shapes => matchesAllowedNew_iff_fits hpath, fun directory hdirectory => ?_,
    fun shape hshape hallowed => ?_⟩
  · have hfree : '*' ∉ (directory ++ "/").toList := by simpa using hdirectory
    have hwritten := writtenAs_append hfree (.anyDepth .nil)
    rw [matchesAllowedNew_iff_fits hpath]
    simp only [List.mem_singleton, exists_eq_left, writtenAs_iff, exists_eq_left']
    rw [show (directory ++ "/**").toList = (directory ++ "/").toList ++ ['*', '*'] by simp,
      writtenAs_iff.mp hwritten, fits_literals_append]
    constructor
    · rintro ⟨rest, hrest, -⟩
      exact ⟨rest, hrest.symm⟩
    · rintro ⟨rest, hrest⟩
      exact ⟨rest, hrest.symm, fits_anyDepth rest⟩
  · obtain ⟨_, hmem, tokens, hwritten, hfits⟩ := (matchesAllowedNew_iff_fits hpath).mp hallowed
    obtain rfl := List.mem_singleton.mp hmem
    exact count_slash_of_fits hshape hwritten hfits

/-- Of three asterisks two are one token, and signs that patterns give a meaning have none here. -/
theorem allowed_shapes_asterisks :
    '\n' ∉ "src/a.b/x+y.ts".toList ∧
      matchesAllowedNew "src/a.b/x+y.ts" ["lib/**", "src/***/x+*.ts"] = true ∧
      matchesAllowedNew "src/a.b/x+y.ts" ["src.a/**"] = false ∧
      matchesAllowedNew "src/a.b/x+y.ts" ["src/*.ts"] = false := by
  obtain ⟨hallowed, hdirectory, hdepth⟩ := allowed_shapes "src/a.b/x+y.ts" (by decide)
  refine ⟨by decide, ?_, ?_, ?_⟩
  · refine (hallowed _).mpr ⟨"src/***/x+*.ts", by decide, _, writtenAs_ofChars _, ?_⟩
    let pieces := ["s", "r", "c", "/", "a.", "b", "/", "x", "+", "y", ".", "t", "s"]
    refine ⟨pieces.map String.toList, ?_, by decide⟩
    simp [pieces, Glob.ofChars, Glob.Accepts]
  · have hshape : "src.a" ++ "/**" = "src.a/**" := by decide
    rw [Bool.eq_false_iff, ← hshape, ne_eq, hdirectory "src.a" (by decide)]
    decide
  · have hsingle : ¬ "**".toList <:+: "src/*.ts".toList := by
      rw [← contains_iff_infix]
      decide
    rw [Bool.eq_false_iff]
    intro hmatches
    exact absurd (hdepth "src/*.ts" hsingle hmatches) (by decide)

end PlanAudit.Paths
