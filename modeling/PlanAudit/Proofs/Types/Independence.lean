import PlanAudit.Proofs.Catalog
import PlanAudit.Proofs.Pattern.Captures
import PlanAudit.Proofs.Types.Scanning

/-!
# Declarations of two sources

Two sources with no declared name in common declare together what they declare apart, and no
declaration takes a member from another one, as long as every declaration is told from what follows
it.

## Main definitions

* `Independent a b file`: two sources are read independently of each other

## Main results

* `infix_of_mem_names_members`: a member stands in the body that it is read from
* `named_addAliases`: an alias is added under a name that is not declared yet
* `named_sources`: under each name there is what is declared in the one source and in the other
* `exists_declared`, `exists_written`: what is written is declared, and what is declared is written
* `independent_of_closed`: sources with no declared name in common are read independently
* `one_line_body_runs_on`: a body that is closed inside a line takes the next declaration as well
-/

namespace PlanAudit.Types

open Text Pattern

/-! ## Members stand in their body -/

section Members

variable {body line : List Char} {n : String}

theorem infix_linesAfter {lines : List (List Char)} (h : line ∈ lines) :
    line <:+: linesAfter lines := by
  obtain ⟨before, after, rfl⟩ := List.append_of_mem h
  rw [linesAfter_append, linesAfter_cons]
  exact ⟨linesAfter before ++ ['\n'], linesAfter after, by simp⟩

theorem infix_of_mem_splitOn (h : line ∈ body.splitOn '\n') : line <:+: body := by
  obtain ⟨first, others, hlines⟩ := List.exists_cons_of_ne_nil (List.splitOn_ne_nil '\n' body)
  have hjoin : ['\n'].intercalate (body.splitOn '\n') = body := List.intercalate_splitOn '\n'
  rw [hlines, intercalate_lineFeed] at hjoin
  rw [hlines] at h
  rw [← hjoin]
  rcases List.mem_cons.mp h with rfl | h
  · exact (List.prefix_append _ _).isInfix
  · exact (infix_linesAfter h).trans (List.suffix_append _ _).isInfix

theorem infix_of_mem_bodyLines (h : line ∈ bodyLines body) : line <:+: body := by
  obtain ⟨part, hpart, rfl⟩ := List.mem_map.mp (List.mem_filter.mp h).1
  exact (infix_strip part).trans (infix_of_mem_splitOn hpart)

theorem infix_of_memberBy {p : Pattern} {kind : MemberKind} {allowed : String → Bool} {m : Member}
    (h : memberBy p kind allowed line = some m) : m.name.toList <:+: line := by
  unfold memberBy at h
  split at h
  · cases h
  · rename_i found hfound
    split at h
    · rw [← Option.some.inj h, Match.name, String.toList_ofList]
      exact group_infix_of_matchHere hfound 1
    · cases h

theorem infix_of_or {x y : Option Member} {m : Member} (h : x.or y = some m)
    (hx : ∀ m, x = some m → m.name.toList <:+: line)
    (hy : ∀ m, y = some m → m.name.toList <:+: line) : m.name.toList <:+: line := by
  rcases Option.or_eq_some_iff.mp h with h | ⟨-, h⟩
  · exact hx m h
  · exact hy m h

theorem infix_of_mem_names_membersBy {read : List Char → Option Member}
    (hread : ∀ line m, read line = some m → m.name.toList <:+: line)
    (h : n ∈ (membersBy read body).names) : n.toList <:+: body := by
  rw [membersBy, Catalog.mem_names_ofList, List.map_map] at h
  obtain ⟨m, hm, rfl⟩ := List.mem_map.mp h
  obtain ⟨line, hline, hm⟩ := List.mem_filterMap.mp hm
  exact (hread line m hm).trans (infix_of_mem_bodyLines hline)

/-- **A member stands in the body** that it is read from. -/
theorem infix_of_mem_names_members (k : DeclarationKind) (h : n ∈ (k.members body).names) :
    n.toList <:+: body := by
  have hobject : ∀ line m, objectMember? line = some m → m.name.toList <:+: line :=
    fun line m h => infix_of_or h (fun _ => infix_of_memberBy) fun _ => infix_of_memberBy
  have hclass : ∀ line m, classMember? line = some m → m.name.toList <:+: line :=
    fun line m h => infix_of_or h (fun _ => infix_of_memberBy) fun _ => infix_of_memberBy
  cases k with
  | interface => exact infix_of_mem_names_membersBy hobject h
  | «alias» => exact infix_of_mem_names_membersBy hobject h
  | enumeration => exact infix_of_mem_names_membersBy (fun _ _ => infix_of_memberBy) h
  | classType => exact infix_of_mem_names_membersBy hclass h

end Members

/-! ## Declarations under a name -/

/-- The declarations under a name. -/
def named (n : String) (ds : List Declaration) : List Declaration := ds.filter (·.name == n)

section Named

variable {n m : String} {ds es : List Declaration} {file : String} {aliases : List String}

theorem named_append : named n (ds ++ es) = named n ds ++ named n es := List.filter_append ..

theorem named_eq_nil_iff : named n ds = [] ↔ n ∉ ds.map (·.name) := by
  simp [named, List.filter_eq_nil_iff]

/-- The declaration of an alias of a type that is no object type. -/
def aliasDeclaration (n file : String) : Declaration := ⟨n, .alias, .empty, file⟩

theorem addAliases_cons :
    addAliases file ds (m :: aliases) =
      addAliases file (if m ∈ ds.map (·.name) then ds else ds ++ [aliasDeclaration m file])
        aliases := by
  have hany : (ds.any (·.name == m)) = true ↔ m ∈ ds.map (·.name) := by simp
  rw [addAliases, List.foldl_cons, addAliases]
  by_cases h : m ∈ ds.map (·.name)
  · rw [if_pos (hany.mpr h), if_pos h]
  · rw [if_neg (mt hany.mp h), if_neg h]
    rfl

/-- **An alias is added under a name that is not declared yet**, and once only. -/
theorem named_addAliases : named n (addAliases file ds aliases) =
    named n ds ++ if n ∈ aliases ∧ n ∉ ds.map (·.name) then [aliasDeclaration n file] else [] := by
  -- Induction on the aliases: the first of them is declared already, or it is declared now.
  induction aliases generalizing ds with
  | nil => simp [addAliases]
  | cons m aliases ih =>
    rw [addAliases_cons, ih]
    by_cases hdeclared : m ∈ ds.map (·.name)
    · rw [if_pos hdeclared]
      by_cases hn : n = m
      · subst hn
        simp [hdeclared]
      · simp [hn]
    · rw [if_neg hdeclared]
      by_cases hn : n = m
      · subst hn
        simp [named, hdeclared, aliasDeclaration]
      · have hm : named n [aliasDeclaration m file] = [] := by
          simp [named, aliasDeclaration, Ne.symm hn]
        rw [named_append, hm, List.append_nil]
        simp [hn, aliasDeclaration]

theorem mem_iff_mem_named {d : Declaration} : d ∈ ds ↔ d ∈ named d.name ds := by
  simp [named]

end Named

/-! ## The parts of a list of declarations -/

section Parts

variable {k : DeclarationKind} {file n : String} {x y : List Char} {a b s : Source} {i : Item}
  {d : Declaration}

/-- The declarations of the kind with a body in braces. -/
def blocks (k : DeclarationKind) (file : String) (content : List Char) : List Declaration :=
  declarationsBy (blockPattern k) k k.members file content

/-- The names of the aliases of other types. -/
def aliasNames (content : List Char) : List String := (otherAlias.findAll content).map (·.name 1)

theorem declarations_eq : declarations x file =
    addAliases file (blocks .interface file x ++ blocks .alias file x) (aliasNames x) ++
      blocks .enumeration file x ++ blocks .classType file x := rfl

theorem blocks_eq : blocks k file x =
    (((blockPattern k).findAll x).map found).map fun r => ⟨r.1, k, k.members r.2, file⟩ := by
  rw [List.map_map]
  rfl

theorem aliasNames_eq : aliasNames x = ((otherAlias.findAll x).map found).map Prod.fst := by
  rw [List.map_map]
  rfl

theorem decidedBy_blockPattern (k : DeclarationKind) : DecidedBy (blockPattern k) := fun _ hi =>
  let ⟨r, hr, _⟩ := exists_yields_block k hi
  ⟨r, hr⟩

theorem decidedBy_otherAlias : DecidedBy otherAlias := fun _ hi =>
  let ⟨r, hr, _⟩ := exists_yields_otherAlias hi
  ⟨r, hr⟩

theorem blocks_sources (ha : a.Closed) (hb : b.Closed) :
    blocks k file (a.text ++ b.text) = blocks k file a.text ++ blocks k file b.text := by
  rw [blocks_eq, findAll_sources (matchesOpenings_blockPattern k) (decidedBy_blockPattern k) ha hb,
    List.map_append, ← blocks_eq, ← blocks_eq]

theorem aliasNames_sources (ha : a.Closed) (hb : b.Closed) :
    aliasNames (a.text ++ b.text) = aliasNames a.text ++ aliasNames b.text := by
  rw [aliasNames_eq, findAll_sources matchesOpenings_otherAlias decidedBy_otherAlias ha hb,
    List.map_append, ← aliasNames_eq, ← aliasNames_eq]

/-- **The declarations with a body** are those in a form that is read, each with its own body. -/
theorem mem_blocks_iff (hs : s.Closed) : d ∈ blocks k file s.text ↔
    ∃ i ∈ s.items, i.IsBraced ∧ i.head.kind = k ∧ i.Readable ∧ d = i.declaration file := by
  have hitem : ∀ i ∈ s.items, ∀ r : String × List Char,
      r ∈ ((blockPattern k).findAll i.text).map found ↔
        i.IsBraced ∧ i.head.kind = k ∧ i.Readable ∧ r = (i.name, i.body) := by
    intro i hi r
    obtain ⟨r', hr', hiff⟩ := exists_yields_block k (hs.items i hi)
    rw [(searchedApart_item (matchesOpenings_blockPattern k) (hs.items i hi) hr').2, ← hiff r,
      Option.mem_toList]
  rw [blocks_eq, (searchedApart_source (matchesOpenings_blockPattern k)
    (decidedBy_blockPattern k) hs).2]
  constructor
  · intro h
    obtain ⟨r, hr, rfl⟩ := List.mem_map.mp h
    obtain ⟨i, hi, hr⟩ := List.mem_flatMap.mp hr
    obtain ⟨hbraced, rfl, hreadable, rfl⟩ := (hitem i hi r).mp hr
    exact ⟨i, hi, hbraced, rfl, hreadable, rfl⟩
  · rintro ⟨i, hi, hbraced, rfl, hreadable, rfl⟩
    have hr := (hitem i hi _).mpr ⟨hbraced, rfl, hreadable, rfl⟩
    exact List.mem_map.mpr ⟨_, List.mem_flatMap.mpr ⟨i, hi, hr⟩, rfl⟩

theorem mem_aliasNames_iff (hs : s.Closed) : n ∈ aliasNames s.text ↔
    ∃ i ∈ s.items, n ∈ aliasNames i.text := by
  simp only [aliasNames_eq, (searchedApart_source matchesOpenings_otherAlias decidedBy_otherAlias
    hs).2, List.map_flatMap, List.mem_flatMap]

theorem name_of_mem_aliasNames (hi : i.Closed) (h : n ∈ aliasNames i.text) :
    i.head.kind = .alias ∧ n = i.name := by
  obtain ⟨r, hr, hname, -⟩ := exists_yields_otherAlias hi
  rw [aliasNames_eq, (searchedApart_item matchesOpenings_otherAlias hi hr).2] at h
  obtain ⟨x, hx, rfl⟩ := List.mem_map.mp h
  exact hname x (Option.mem_toList.mp hx)

theorem name_mem_aliasNames (hi : i.Closed) (hequated : ¬ i.IsBraced) (hreadable : i.Readable) :
    i.name ∈ aliasNames i.text := by
  obtain ⟨r, hr, hname, hsome⟩ := exists_yields_otherAlias hi
  obtain ⟨x, rfl⟩ := Option.isSome_iff_exists.mp (hsome hequated hreadable)
  rw [aliasNames_eq, (searchedApart_item matchesOpenings_otherAlias hi hr).2]
  exact List.mem_map.mpr ⟨x, by simp, (hname x rfl).2⟩

/-! ## Which declarations there are -/

theorem named_declarations : named n (declarations x file) =
    named n (blocks .interface file x) ++ named n (blocks .alias file x) ++
      (if n ∈ aliasNames x ∧ n ∉ (blocks .interface file x ++ blocks .alias file x).map (·.name)
        then [aliasDeclaration n file] else []) ++
      named n (blocks .enumeration file x) ++ named n (blocks .classType file x) := by
  rw [declarations_eq, named_append, named_append, named_addAliases, named_append]

theorem named_declarations_congr
    (hblocks : ∀ k, named n (blocks k file x) = named n (blocks k file y))
    (haliases : n ∈ aliasNames x ↔ n ∈ aliasNames y) :
    named n (declarations x file) = named n (declarations y file) := by
  have hnames : (n ∈ aliasNames x ∧
        n ∉ (blocks .interface file x ++ blocks .alias file x).map (·.name)) ↔
      (n ∈ aliasNames y ∧
        n ∉ (blocks .interface file y ++ blocks .alias file y).map (·.name)) := by
    rw [← named_eq_nil_iff, ← named_eq_nil_iff, named_append, named_append, hblocks, hblocks,
      haliases]
  rw [named_declarations, named_declarations, hblocks, hblocks, hblocks, hblocks,
    if_congr hnames rfl rfl]

/-- A name that is not declared is found nowhere. -/
theorem parts_of_named_eq_nil (h : named n (declarations x file) = []) :
    (∀ k, named n (blocks k file x) = []) ∧ n ∉ aliasNames x := by
  rw [named_declarations] at h
  simp only [List.append_eq_nil_iff] at h
  obtain ⟨⟨⟨⟨hinterface, halias⟩, hother⟩, henumeration⟩, hclass⟩ := h
  refine ⟨fun k => by cases k <;> assumption, fun hmem => ?_⟩
  have hfree : n ∉ (blocks .interface file x ++ blocks .alias file x).map (·.name) := by
    rw [← named_eq_nil_iff, named_append, hinterface, halias, List.append_nil]
  rw [if_pos ⟨hmem, hfree⟩] at hother
  cases hother

theorem mem_declarations_of_mem_blocks (h : d ∈ blocks k file x) : d ∈ declarations x file := by
  have hfirst : ∀ k, d ∈ blocks k file x → d ∈ named d.name (blocks k file x) :=
    fun _ => mem_iff_mem_named.mp
  rw [mem_iff_mem_named, named_declarations]
  cases k <;> simp [hfirst _ h]

theorem mem_blocks_or_of_mem_declarations (h : d ∈ declarations x file) :
    (∃ k, d ∈ blocks k file x) ∨ ∃ n ∈ aliasNames x, d = aliasDeclaration n file := by
  have hlast : ∀ k, d ∈ named d.name (blocks k file x) → d ∈ blocks k file x :=
    fun _ => mem_iff_mem_named.mpr
  rw [mem_iff_mem_named, named_declarations] at h
  simp only [List.mem_append] at h
  rcases h with (((h | h) | h) | h) | h
  · exact Or.inl ⟨_, hlast _ h⟩
  · exact Or.inl ⟨_, hlast _ h⟩
  · split at h
    · rename_i hname
      exact Or.inr ⟨_, hname.1, List.mem_singleton.mp h⟩
    · cases h
  · exact Or.inl ⟨_, hlast _ h⟩
  · exact Or.inl ⟨_, hlast _ h⟩

/-- A name of an alias is declared, if not as an alias then with a body. -/
theorem mem_declarations_of_mem_aliasNames (h : n ∈ aliasNames x) :
    aliasDeclaration n file ∈ declarations x file ∨ ∃ k, ∃ d ∈ blocks k file x, d.name = n := by
  by_cases hfree : n ∈ (blocks .interface file x ++ blocks .alias file x).map (·.name)
  · obtain ⟨d, hd, hname⟩ := List.mem_map.mp hfree
    right
    rcases List.mem_append.mp hd with hd | hd
    · exact ⟨_, d, hd, hname⟩
    · exact ⟨_, d, hd, hname⟩
  · left
    have hnamed : aliasDeclaration n file ∈ named n (declarations x file) := by
      rw [named_declarations, if_pos ⟨h, hfree⟩]
      simp
    exact (List.mem_filter.mp hnamed).1

end Parts

/-! ## Two sources -/

/-- Two sources are read independently of each other. -/
structure Independent (a b : Source) (file : String) : Prop where
  /-- Under each name there is what is declared in the one source and what is declared in the
  other. -/
  apart : ∀ n, (declarations (a.text ++ b.text) file).filter (·.name == n) =
    (declarations a.text file).filter (·.name == n) ++
      (declarations b.text file).filter (·.name == n)
  /-- What is written in a form that is read is declared with its kind and the members of its own
  body.  Of an alias without a body and a body of one name, the body counts. -/
  complete : ∀ i ∈ a.items ++ b.items, i.Readable → ∃ j ∈ a.items ++ b.items,
    j.declaration file ∈ declarations (a.text ++ b.text) file ∧ j.name = i.name ∧
      (j = i ∨ j.IsBraced ∧ ¬ i.IsBraced)
  /-- Everything that is declared is written, and an alias may be without its members.  Every member
  stands in the body of its own declaration. -/
  own : ∀ d ∈ declarations (a.text ++ b.text) file, ∃ i ∈ a.items ++ b.items,
    (d = i.declaration file ∨ i.head.kind = .alias ∧ d = aliasDeclaration i.name file) ∧
      ∀ n ∈ d.members.names, n.toList <:+: i.body

section Sources

variable {a b : Source} {file n : String} {d : Declaration} {i : Item}

theorem named_sources (ha : a.Closed) (hb : b.Closed)
    (h : ∀ d ∈ declarations a.text file, ∀ e ∈ declarations b.text file, d.name ≠ e.name) :
    named n (declarations (a.text ++ b.text) file) =
      named n (declarations a.text file) ++ named n (declarations b.text file) := by
  by_cases hfirst : named n (declarations a.text file) = []
  · obtain ⟨hblocks, haliases⟩ := parts_of_named_eq_nil hfirst
    rw [hfirst, List.nil_append]
    refine named_declarations_congr (fun k => ?_) ?_
    · rw [blocks_sources ha hb, named_append, hblocks, List.nil_append]
    · rw [aliasNames_sources ha hb, List.mem_append, or_iff_right haliases]
  · -- A name that the first source declares the second one does not declare.
    have hsecond : named n (declarations b.text file) = [] := by
      obtain ⟨d, hd⟩ := List.exists_mem_of_ne_nil _ hfirst
      obtain ⟨hd, hname⟩ := List.mem_filter.mp hd
      refine List.filter_eq_nil_iff.mpr fun e he hname' => h d hd e he ?_
      rw [beq_iff_eq.mp hname, beq_iff_eq.mp hname']
    obtain ⟨hblocks, haliases⟩ := parts_of_named_eq_nil hsecond
    rw [hsecond, List.append_nil]
    refine named_declarations_congr (fun k => ?_) ?_
    · rw [blocks_sources ha hb, named_append, hblocks, List.append_nil]
    · rw [aliasNames_sources ha hb, List.mem_append, or_iff_left haliases]

theorem mem_blocks_sources_iff (ha : a.Closed) (hb : b.Closed) {k : DeclarationKind} :
    d ∈ blocks k file (a.text ++ b.text) ↔ ∃ i ∈ a.items ++ b.items,
      i.IsBraced ∧ i.head.kind = k ∧ i.Readable ∧ d = i.declaration file := by
  rw [blocks_sources ha hb, List.mem_append, mem_blocks_iff ha, mem_blocks_iff hb]
  simp only [List.mem_append, or_and_right, exists_or]

theorem mem_aliasNames_sources_iff (ha : a.Closed) (hb : b.Closed) :
    n ∈ aliasNames (a.text ++ b.text) ↔ ∃ i ∈ a.items ++ b.items, n ∈ aliasNames i.text := by
  rw [aliasNames_sources ha hb, List.mem_append, mem_aliasNames_iff ha, mem_aliasNames_iff hb]
  simp only [List.mem_append, or_and_right, exists_or]

theorem declaration_of_alias (hkind : i.head.kind = .alias) (hequated : ¬ i.IsBraced) :
    i.declaration file = aliasDeclaration i.name file := by
  have hbody : i.body = [] := by
    cases i with
    | braced b => exact absurd trivial hequated
    | equated e => rfl
  rw [Item.declaration, hkind, hbody]
  rfl

theorem closed_of_mem (ha : a.Closed) (hb : b.Closed) (hi : i ∈ a.items ++ b.items) : i.Closed :=
  (List.mem_append.mp hi).elim (ha.items i) (hb.items i)

/-- **What is written in a form that is read is declared**, with its own body. -/
theorem exists_declared (ha : a.Closed) (hb : b.Closed) (hi : i ∈ a.items ++ b.items)
    (hreadable : i.Readable) : ∃ j ∈ a.items ++ b.items,
      j.declaration file ∈ declarations (a.text ++ b.text) file ∧ j.name = i.name ∧
        (j = i ∨ j.IsBraced ∧ ¬ i.IsBraced) := by
  by_cases hbraced : i.IsBraced
  · -- With a body it is found by the pattern of its kind, without one by its name.
    have hmem : i.declaration file ∈ blocks i.head.kind file (a.text ++ b.text) :=
      (mem_blocks_sources_iff ha hb).mpr ⟨i, hi, hbraced, rfl, hreadable, rfl⟩
    exact ⟨i, hi, mem_declarations_of_mem_blocks hmem, rfl, Or.inl rfl⟩
  · have hclosed := closed_of_mem ha hb hi
    have hname := name_mem_aliasNames hclosed hbraced hreadable
    have hkind := (name_of_mem_aliasNames hclosed hname).1
    have hmem : i.name ∈ aliasNames (a.text ++ b.text) :=
      (mem_aliasNames_sources_iff ha hb).mpr ⟨i, hi, hname⟩
    have hdeclared : aliasDeclaration i.name file ∈ declarations (a.text ++ b.text) file ∨
        ∃ k, ∃ d ∈ blocks k file (a.text ++ b.text), d.name = i.name :=
      mem_declarations_of_mem_aliasNames hmem
    rcases hdeclared with hd | ⟨k, d, hd, hname⟩
    · rw [← declaration_of_alias hkind hbraced] at hd
      exact ⟨i, hi, hd, rfl, Or.inl rfl⟩
    · obtain ⟨j, hj, hbraced', -, -, rfl⟩ := (mem_blocks_sources_iff ha hb).mp hd
      exact ⟨j, hj, mem_declarations_of_mem_blocks hd, hname, Or.inr ⟨hbraced', hbraced⟩⟩

/-- **What is declared is written**, and its members stand in its own body. -/
theorem exists_written (ha : a.Closed) (hb : b.Closed)
    (hd : d ∈ declarations (a.text ++ b.text) file) : ∃ i ∈ a.items ++ b.items,
      (d = i.declaration file ∨ i.head.kind = .alias ∧ d = aliasDeclaration i.name file) ∧
        ∀ n ∈ d.members.names, n.toList <:+: i.body := by
  rcases mem_blocks_or_of_mem_declarations hd with ⟨k, hd⟩ | ⟨n, hn, rfl⟩
  · obtain ⟨i, hi, -, -, -, rfl⟩ := (mem_blocks_sources_iff ha hb).mp hd
    exact ⟨i, hi, Or.inl rfl, fun n hn => infix_of_mem_names_members _ hn⟩
  · -- An alias of another type has no members.
    obtain ⟨i, hi, hn⟩ := (mem_aliasNames_sources_iff ha hb).mp hn
    obtain ⟨hkind, rfl⟩ := name_of_mem_aliasNames (closed_of_mem ha hb hi) hn
    exact ⟨i, hi, Or.inr ⟨hkind, rfl⟩, fun n hn => nomatch hn⟩

/-- **Sources with no declared name in common are read independently**, if every declaration is told
from what follows it. -/
theorem independent_of_closed (ha : a.Closed) (hb : b.Closed) (file : String)
    (h : ∀ d ∈ declarations a.text file, ∀ e ∈ declarations b.text file, d.name ≠ e.name) :
    Independent a b file where
  apart _ := named_sources ha hb h
  complete _ hi hreadable := exists_declared ha hb hi hreadable
  own _ hd := exists_written ha hb hd

end Sources

/-! ## Sources that are read together -/

/-- The modifier of what is used elsewhere. -/
def exported : Token := ⟨⟨"export".toList, by decide, by decide⟩, .space⟩

/-- A source with an interface and an alias. -/
def profileTypes : Source where
  preamble := "// Profiles\n".toList
  ended := by decide
  items :=
    [.braced
       { head :=
           { modifiers := [exported], plain := by decide, kind := .interface, gap := .space
             name := ⟨"UserProfile".toList, by decide, by decide⟩
             after := "<T = unknown> ".toList, apart := by decide, angle := by decide }
         body := "\n  id: string;\n  getInitials(): string;\n".toList
         tail := "\n\n".toList
         ended := by decide },
     .equated
       { head :=
           { modifiers := [exported], plain := by decide, kind := .alias, gap := .space
             name := ⟨"UserId".toList, by decide, by decide⟩
             after := " ".toList, apart := by decide, angle := by decide }
         isAlias := rfl
         value := " string;\n".toList
         ended := by decide }]

/-- A source with an enumeration and a class, a method of which has a body. -/
def serviceTypes : Source where
  preamble := []
  ended := by decide
  items :=
    [.braced
       { head :=
           { modifiers := [exported, ⟨⟨"const".toList, by decide, by decide⟩, .space⟩]
             plain := by decide, kind := .enumeration, gap := .space
             name := ⟨"Role".toList, by decide, by decide⟩
             after := " ".toList, apart := by decide, angle := by decide }
         body := "\n  Admin = 'admin',\n".toList
         tail := "\n".toList
         ended := by decide },
     .braced
       { head :=
           { modifiers := [], plain := by decide, kind := .classType, gap := .space
             name := ⟨"UserService".toList, by decide, by decide⟩
             after := " extends Base ".toList, apart := by decide, angle := by decide }
         body := "\n  async findById(id: string) \x7b\n  \x7d\n".toList
         tail := "\n".toList
         ended := by decide }]

/-- An interface and an alias next to an enumeration and a class. -/
theorem independent_profileTypes_serviceTypes :
    profileTypes.Closed ∧ serviceTypes.Closed ∧
      (∀ d ∈ declarations profileTypes.text "a.ts", ∀ e ∈ declarations serviceTypes.text "a.ts",
        d.name ≠ e.name) ∧
      Independent profileTypes serviceTypes "a.ts" := by
  have hnames : ∀ d ∈ declarations profileTypes.text "a.ts",
      ∀ e ∈ declarations serviceTypes.text "a.ts", d.name ≠ e.name := by
    decide +kernel
  have hprofile : profileTypes.Closed := by decide
  have hservice : serviceTypes.Closed := by decide
  exact ⟨hprofile, hservice, hnames, independent_of_closed hprofile hservice "a.ts" hnames⟩

/-! ## A body that is closed inside a line -/

/-- An interface with its body on one line. -/
def oneLine : Source where
  preamble := []
  ended := by decide
  items :=
    [.braced
       { head :=
           { modifiers := [], plain := by decide, kind := .interface, gap := .space
             name := ⟨"A".toList, by decide, by decide⟩
             after := " ".toList, apart := by decide, angle := by decide }
         body := " x: string ".toList
         tail := "\n".toList
         ended := by decide }]

/-- An interface with its body on several lines. -/
def severalLines : Source where
  preamble := []
  ended := by decide
  items :=
    [.braced
       { head :=
           { modifiers := [], plain := by decide, kind := .interface, gap := .space
             name := ⟨"B".toList, by decide, by decide⟩
             after := " ".toList, apart := by decide, angle := by decide }
         body := "\n  y: string\n".toList
         tail := "\n".toList
         ended := by decide }]

/-- **A body that is closed inside a line takes the next declaration as well**: a member of the
second interface is given to the first one, and the second one is not declared. -/
theorem one_line_body_runs_on :
    oneLine.text = "interface A \x7b x: string \x7d\n".toList ∧
      severalLines.text = "interface B \x7b\n  y: string\n\x7d\n".toList ∧
      (∀ i ∈ oneLine.items ++ severalLines.items, i.Readable) ∧
      (∀ i ∈ oneLine.items, ∀ j ∈ severalLines.items, i.name ≠ j.name) ∧
      (declarations (oneLine.text ++ severalLines.text) "a.ts").map
        (fun d => (d.name, d.members.names)) = [("A", ["x", "y"])] ∧
      (declarations severalLines.text "a.ts").map (fun d => (d.name, d.members.names)) =
        [("B", ["y"])] ∧
      ¬ Independent oneLine severalLines "a.ts" := by
  have hblank : Blank [' '] := List.forall_mem_singleton.mpr (by decide)
  have hfront : Continues .interface ([] ++ ([] ++ [' '])) :=
    .interface (Or.inl rfl) (Or.inl rfl) hblank
  have hreadable : ∀ i ∈ oneLine.items ++ severalLines.items, i.Readable :=
    List.forall_mem_cons.mpr ⟨⟨List.nil_sublist _, hfront⟩,
      List.forall_mem_cons.mpr ⟨⟨List.nil_sublist _, hfront⟩, List.forall_mem_nil _⟩⟩
  refine ⟨by decide, by decide, hreadable, by decide, by decide +kernel, by decide +kernel,
    fun h => ?_⟩
  exact absurd (congrArg List.length (h.apart "B")) (by decide +kernel)

end PlanAudit.Types
