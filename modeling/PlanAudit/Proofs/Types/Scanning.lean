import PlanAudit.Proofs.Types.Items

/-!
# Searching a source declaration by declaration

Where every declaration is told from what follows it, a search finds in a source what it finds in
each of its declarations, one after the other.

## Main definitions

* `SearchedApart p w`: what the pattern `p` finds in `w` does not depend on what stands around it

## Main results

* `searchedApart_item`: a declaration is searched apart from what follows it
* `searchedApart_source`, `findAll_sources`: so is a source, declaration by declaration
-/

namespace PlanAudit.Types

open Text Pattern

/-! ## Lines that start no declaration -/

section Lines

variable {u v w s t : List Char}

theorem firstWord_append_lineFeed : firstWord (w ++ '\n' :: s) = firstWord w := by
  rw [firstWord, firstWord, List.takeWhile_append]
  split
  · rename_i hall
    have hfeed : ('\n' :: s).takeWhile (fun c => !isBlank c) = [] :=
      List.takeWhile_cons_of_neg (by decide)
    rw [hfeed, List.append_nil, (List.takeWhile_prefix _).eq_of_length hall]
  · rfl

/-- What follows a line does not change its first word. -/
theorem opens_append_iff (hs : s.getLast? = some '\n') : Opens (s ++ t) ↔ Opens s := by
  obtain ⟨w, rfl⟩ := List.getLast?_eq_some_iff.mp hs
  rw [Opens, Opens, List.append_assoc, List.singleton_append, firstWord_append_lineFeed,
    firstWord_append_lineFeed]

theorem opens_iff_of_splitOn {line : List Char} {lines : List (List Char)}
    (h : s.splitOn '\n' = line :: lines) : Opens s ↔ Opens line := by
  have hjoin : ['\n'].intercalate (s.splitOn '\n') = s := List.intercalate_splitOn '\n'
  rw [h, intercalate_lineFeed] at hjoin
  rw [Opens, Opens, ← hjoin]
  cases lines with
  | nil => rw [linesAfter_nil, List.append_nil]
  | cons next lines => rw [linesAfter_cons, firstWord_append_lineFeed]

theorem not_opens_of_lines (h : ∀ line ∈ s.splitOn '\n', ¬ Opens line) : ¬ Opens s := by
  obtain ⟨line, lines, hlines⟩ := List.exists_cons_of_ne_nil (List.splitOn_ne_nil '\n' s)
  rw [opens_iff_of_splitOn hlines]
  exact h line (by simp [hlines])

theorem not_opens_behind (hlines : ∀ line ∈ (w.splitOn '\n').tail, ¬ Opens line)
    (hw : w = u ++ '\n' :: s) : ¬ Opens s := by
  refine not_opens_of_lines fun line hline => hlines line ?_
  obtain ⟨first, others, hfirst⟩ := List.exists_cons_of_ne_nil (List.splitOn_ne_nil '\n' u)
  rw [hw, List.splitOn_append_cons_self, hfirst]
  simp [hline]

end Lines

/-! ## Patterns of declarations -/

/-- The pattern matches only where a line starts like a declaration. -/
def MatchesOpenings (p : Pattern) : Prop :=
  ∀ before rest, ¬ (StartsLine before ∧ Opens rest) →
    ∀ offset, p.matchHere before offset rest = none

theorem matchesOpenings_blockPattern (k : DeclarationKind) : MatchesOpenings (blockPattern k) := by
  intro before rest h offset
  rw [matchHere_blockPattern]
  exact matchHere_headed_eq_none h offset

theorem matchesOpenings_otherAlias : MatchesOpenings otherAlias := by
  intro before rest h offset
  rw [matchHere_otherAlias]
  exact matchHere_headed_eq_none h offset

section Search

variable {p : Pattern} {v w v' t : List Char} {before : Option Char} {offset : Nat}

theorem MatchesOpenings.findScan_nil (hp : MatchesOpenings p) :
    p.findScan 0 before offset [] = [] := by
  rw [findScan, hp before [] fun h => absurd h.2 (by decide)]
  rfl

/-- Inside a text whose lines start no declaration nothing is found. -/
theorem MatchesOpenings.quiet (hp : MatchesOpenings p)
    (hlines : ∀ line ∈ (w.splitOn '\n').tail, ¬ Opens line) (hended : w.getLast? = some '\n')
    (hw : w = v ++ v') (hv : v ≠ []) : p.Quiet (v.getLast?.or before) v' t := by
  -- Induction on what is still to be passed over: where a line starts in it, it starts no
  -- declaration.
  induction v' generalizing v before with
  | nil => trivial
  | cons x v' ih =>
    have hlast : ((x :: v') : List Char).getLast? = some '\n' := by
      rw [hw, List.getLast?_append_of_ne_nil _ (List.cons_ne_nil x v')] at hended
      exact hended
    constructor
    · refine hp _ _ fun ⟨hstart, hopens⟩ => ?_
      have hy := List.getLast?_eq_some_getLast hv
      rw [hy, Option.some_or] at hstart
      have hfeed : v.getLast hv = '\n' := by simpa [StartsLine] using hstart
      rw [hfeed] at hy
      obtain ⟨u, rfl⟩ := List.getLast?_eq_some_iff.mp hy
      rw [← List.cons_append, opens_append_iff hlast] at hopens
      exact not_opens_behind (u := u) hlines (by simpa using hw) hopens
    · have hnext : p.Quiet ((v ++ [x]).getLast?.or before) v' t := ih (by simp [hw]) (by simp)
      simpa using hnext

/-- What the pattern finds in the text does not depend on what stands around it. -/
structure SearchedApart (p : Pattern) (w : List Char) : Prop where
  /-- Behind the text a line starts. -/
  starts : ∀ before, StartsLine before → StartsLine (w.getLast?.or before)
  split : ∀ before offset t, StartsLine before → (p.findScan 0 before offset (w ++ t)).map found =
    (p.findAll w).map found ++
      (p.findScan 0 (w.getLast?.or before) (offset + w.length) t).map found

theorem findAll_append (hv : SearchedApart p v) (hw : SearchedApart p w) (hp : MatchesOpenings p) :
    (p.findAll (v ++ w)).map found = (p.findAll v).map found ++ (p.findAll w).map found := by
  have hstart : StartsLine (v.getLast?.or none) := hv.starts none (Or.inl rfl)
  have hrest := hw.split (v.getLast?.or none) (0 + v.length) [] hstart
  rw [List.append_nil, hp.findScan_nil, List.map_nil, List.append_nil] at hrest
  rw [findAll, hv.split none 0 w (Or.inl rfl), hrest]

theorem searchedApart_nil (hp : MatchesOpenings p) : SearchedApart p [] where
  starts _ h := h
  split before offset t _ := by
    rw [findAll, hp.findScan_nil]
    rfl

theorem SearchedApart.append (hv : SearchedApart p v) (hw : SearchedApart p w)
    (hp : MatchesOpenings p) : SearchedApart p (v ++ w) where
  starts before h := by
    rw [List.getLast?_append, Option.or_assoc]
    exact hw.starts _ (hv.starts before h)
  split before offset t h := by
    rw [List.append_assoc, hv.split before offset _ h, hw.split _ _ t (hv.starts before h),
      findAll_append hv hw hp, List.append_assoc, List.getLast?_append, Option.or_assoc,
      List.length_append, Nat.add_assoc]

/-- In a text of lines that start no declaration but the first, nothing is found unless it is found
at the start. -/
theorem MatchesOpenings.quiet_of_none (hp : MatchesOpenings p)
    (hlines : ∀ line ∈ (w.splitOn '\n').tail, ¬ Opens line) (hended : w.getLast? = some '\n')
    (hnone : ∀ offset, p.matchHere before offset (w ++ t) = none) : p.Quiet before w t := by
  cases w with
  | nil => trivial
  | cons x w =>
    have hrest : p.Quiet ([x].getLast?.or before) w t := hp.quiet hlines hended rfl (by simp)
    exact ⟨hnone, by simpa using hrest⟩

/-- A text in which nothing is found is passed over. -/
theorem searchedApart_of_quiet (hp : MatchesOpenings p) (hended : ∀ c ∈ w.getLast?, c = '\n')
    (hquiet : ∀ before t, p.Quiet before w t) :
    SearchedApart p w ∧ (p.findAll w).map found = [] := by
  have hnil : p.findAll w = [] := by
    have hscan := findScan_append_of_quiet (hquiet none []) 0
    rwa [List.append_nil, hp.findScan_nil] at hscan
  refine ⟨⟨fun before h => ?_, fun before offset t _ => ?_⟩, by rw [hnil, List.map_nil]⟩
  · cases hlast : w.getLast? with
    | none => exact h
    | some x => exact Or.inr (congrArg some (hended x hlast))
  · rw [hnil, List.map_nil, List.nil_append, findScan_append_of_quiet (hquiet before t)]

theorem searchedApart_of_lines (hp : MatchesOpenings p)
    (hlines : ∀ line ∈ w.splitOn '\n', ¬ Opens line) (hended : ∀ c ∈ w.getLast?, c = '\n') :
    SearchedApart p w ∧ (p.findAll w).map found = [] := by
  refine searchedApart_of_quiet hp hended fun before t => ?_
  cases hlast : w.getLast? with
  | none =>
    rw [List.getLast?_eq_none_iff.mp hlast]
    trivial
  | some x =>
    -- Behind the first line the lines are those of the text, and the first one is looked at alone.
    rw [hended x hlast] at hlast
    refine hp.quiet_of_none (fun line hline => hlines line (List.mem_of_mem_tail hline)) hlast
      (hp _ _ fun h => ?_)
    exact not_opens_of_lines hlines ((opens_append_iff hlast).mp h.2)

theorem Item.getLast?_text (i : Item) : i.text.getLast? = some '\n' := by
  cases i with
  | braced b =>
    have htext : (Item.braced b).text =
        (b.head.front ++ (b.head.after ++ '{' :: (b.body ++ ['}']))) ++ b.tail := by
      simp [Item.text, Item.rest, Item.head]
    rw [htext, List.getLast?_append, b.ended, Option.some_or]
  | equated e =>
    have htext : (Item.equated e).text = (e.head.front ++ (e.head.after ++ ['='])) ++ e.value := by
      simp [Item.text, Item.rest, Item.head]
    rw [htext, List.getLast?_append, e.ended, Option.some_or]

/-- **A declaration is searched apart from what follows it.** -/
theorem searchedApart_item {i : Item} (hp : MatchesOpenings p) (hi : i.Closed)
    {r : Option (String × List Char)} (h : Yields p i.text r) :
    SearchedApart p i.text ∧ (p.findAll i.text).map found = r.toList := by
  have hlast := i.getLast?_text
  cases r with
  | none =>
    refine searchedApart_of_quiet hp (fun c hc => ?_) fun before t => ?_
    · rw [hlast] at hc
      exact (Option.some.inj hc).symm
    · exact hp.quiet_of_none hi.lines hlast fun offset => h before offset t
  | some r =>
    obtain ⟨v, v', htext, hv, hmatch⟩ := h
    -- Behind the match the rest of the declaration is passed over.
    have hscan : ∀ before offset t, StartsLine before →
        (p.findScan 0 before offset (i.text ++ t)).map found =
          r :: (p.findScan 0 (i.text.getLast?.or before) (offset + i.text.length) t).map found := by
      intro before offset t hstart
      obtain ⟨m, hm, hstop, hfound⟩ := hmatch before offset t hstart
      have hquiet : p.Quiet (v.getLast?.or before) v' t := hp.quiet hi.lines hlast htext hv
      rw [htext, List.append_assoc] at hm
      rw [htext, List.append_assoc, findScan_append_of_matchHere hv hm hstop, List.map_cons, hfound,
        findScan_append_of_quiet hquiet, List.getLast?_append, Option.or_assoc, List.length_append,
        Nat.add_assoc]
    have hall : (p.findAll i.text).map found = [r] := by
      have hend := hscan none 0 [] (Or.inl rfl)
      rwa [List.append_nil, hp.findScan_nil] at hend
    refine ⟨⟨fun before _ => ?_, fun before offset t hstart => ?_⟩, hall⟩
    · rw [hlast]
      exact Or.inr rfl
    · rw [hscan before offset t hstart, hall, List.singleton_append]

end Search

/-! ## Searching a source -/

section Source

variable {p : Pattern} {s a b : Source}

/-- The pattern finds something in a declaration, whatever follows, or nothing. -/
def DecidedBy (p : Pattern) : Prop := ∀ i : Item, i.Closed → ∃ r, Yields p i.text r

theorem searchedApart_items (hp : MatchesOpenings p) (hd : DecidedBy p) {items : List Item}
    (h : ∀ i ∈ items, i.Closed) : SearchedApart p (items.flatMap Item.text) ∧
      (p.findAll (items.flatMap Item.text)).map found =
        items.flatMap fun i => (p.findAll i.text).map found := by
  induction items with
  | nil => exact ⟨searchedApart_nil hp, by rw [List.flatMap_nil, findAll, hp.findScan_nil]; rfl⟩
  | cons i items ih =>
    obtain ⟨hi, hitems⟩ := List.forall_mem_cons.mp h
    obtain ⟨r, hr⟩ := hd i hi
    have hitem := (searchedApart_item hp hi hr).1
    obtain ⟨hrest, hfound⟩ := ih hitems
    rw [List.flatMap_cons, List.flatMap_cons]
    exact ⟨hitem.append hrest hp, by rw [findAll_append hitem hrest hp, hfound]⟩

/-- **A source is searched declaration by declaration.** -/
theorem searchedApart_source (hp : MatchesOpenings p) (hd : DecidedBy p) (hs : s.Closed) :
    SearchedApart p s.text ∧ (p.findAll s.text).map found =
      s.items.flatMap fun i => (p.findAll i.text).map found := by
  obtain ⟨hpreamble, hnone⟩ := searchedApart_of_lines hp hs.preamble s.ended
  obtain ⟨hitems, hfound⟩ := searchedApart_items hp hd hs.items
  refine ⟨hpreamble.append hitems hp, ?_⟩
  rw [Source.text, findAll_append hpreamble hitems hp, hnone, hfound, List.nil_append]

/-- What is found in two sources is found in one and in the other. -/
theorem findAll_sources (hp : MatchesOpenings p) (hd : DecidedBy p) (ha : a.Closed)
    (hb : b.Closed) :
    (p.findAll (a.text ++ b.text)).map found =
      (p.findAll a.text).map found ++ (p.findAll b.text).map found :=
  findAll_append (searchedApart_source hp hd ha).1 (searchedApart_source hp hd hb).1 hp

end Source

end PlanAudit.Types
