import Mathlib.Data.List.TakeWhile
import PlanAudit.Files.Ignore
import PlanAudit.Proofs.Fault
import PlanAudit.Proofs.Text.Segments

/-!
# The lines of an ignore file

A line of an ignore file states a pattern, or states nothing, or is refused, and one refused line
makes the whole file a fault.  What decides is the way its segments are written, read from left to
right: a bracket that is never closed makes the line void, a backslash at the end of a segment
makes it malformed, and the first of the two to occur decides.  Only where every segment can be
read to its end do the ranges of characters count.

The rules for slashes put double asterisks at the ends of a pattern and take empty segments away.
Neither has any part in the decision, so that it is made on the segments as they are written.

## Main definitions

* `WrittenToken`, `WrittenSegment`: how the tokens of a segment are written
* `RefusedPattern`, `RefusedLine`: the patterns and lines that are refused
* `FileSystem.SoundIgnoreFile`: the ignore file of a directory has no fault

## Main results

* `writtenSegment_iff`: the reader of segments finds exactly what is written
* `exists_ofLine?_eq_error_iff`: exactly the refused lines are faults
* `exists_ignoreRules_eq_ok_iff`: a directory has rules exactly if its ignore file is sound
-/

namespace PlanAudit

open Text

/-! ## Segments -/

/-- A text that stands for one token. -/
inductive WrittenToken : List Char → IgnoreToken → Prop where
  | anyText : WrittenToken ['*'] .anyText
  | anyChar : WrittenToken ['?'] .anyChar
  | escaped (c : Char) : WrittenToken ['\\', c] (.literal c)
  | literal {c : Char} (h : c ∉ ['*', '?', '\\', '[']) : WrittenToken [c] (.literal c)
  | inside {first : Char} {more : List Char} (hfirst : ¬(first = '!' ∨ first = '^'))
    (hmore : ']' ∉ more) :
    WrittenToken ('[' :: first :: more ++ [']']) (.oneOf false (rangesOf (first :: more)))
  | outside {mark first : Char} {more : List Char} (hmark : mark = '!' ∨ mark = '^')
    (hmore : ']' ∉ more) :
    WrittenToken ('[' :: mark :: first :: more ++ [']']) (.oneOf true (rangesOf (first :: more)))

/-- What may stand behind an opening bracket that is not closed.  The first character that the
bracket would hold does not close it. -/
inductive Unclosed : List Char → Prop where
  | empty : Unclosed []
  | inside {first : Char} {more : List Char} (hfirst : ¬(first = '!' ∨ first = '^'))
    (hmore : ']' ∉ more) : Unclosed (first :: more)
  | outside {mark : Char} {body : List Char} (hmark : mark = '!' ∨ mark = '^')
    (hbody : ']' ∉ body.drop 1) : Unclosed (mark :: body)

/-- How a segment is written: token by token up to its end, to a bracket that is not closed or to a
backslash with nothing behind it. -/
inductive WrittenSegment : List Char → SegmentReading → Prop where
  | nil : WrittenSegment [] (.tokens [])
  | loneBackslash : WrittenSegment ['\\'] .loneBackslash
  | unclosed {body : List Char} (h : Unclosed body) : WrittenSegment ('[' :: body) .unclosed
  | cons {written rest : List Char} {t : IgnoreToken} {r : SegmentReading}
    (ht : WrittenToken written t) (hr : WrittenSegment rest r) :
    WrittenSegment (written ++ rest) (r.cons t)

/-! ### What is written is read -/

theorem bracketBody?_closed {first : Char} {more : List Char} (h : ']' ∉ more)
    (after : List Char) :
    bracketBody? (first :: (more ++ ']' :: after)) = some (first :: more, after) := by
  have hne : ∀ c ∈ more, (c != ']') = true := by
    intro c hc
    simpa using ne_of_mem_of_not_mem hc h
  have htake : (more ++ ']' :: after).takeWhile (· != ']') = more := by
    rw [List.takeWhile_append_of_pos hne, List.takeWhile_cons_of_neg (by simp), List.append_nil]
  simp [bracketBody?, htake]

theorem bracketBody?_unclosed {body : List Char} (h : ']' ∉ body.drop 1) :
    bracketBody? body = none := by
  cases body with
  | nil => rfl
  | cons first rest =>
    have htake : rest.takeWhile (· != ']') = rest := by
      refine List.takeWhile_eq_self_iff.mpr fun c hc => ?_
      simpa using ne_of_mem_of_not_mem hc h
    simp [bracketBody?, htake]

theorem readSegment_inside {first : Char} (hfirst : ¬(first = '!' ∨ first = '^')) (fuel : Nat)
    (more : List Char) : readSegment (fuel + 1) ('[' :: first :: more) =
      match bracketBody? (first :: more) with
      | some (body, after) => (readSegment fuel after).cons (.oneOf false (rangesOf body))
      | none => .unclosed := by
  have hnegated : (first == '!' || first == '^') = false := by simpa using hfirst
  simp only [readSegment, List.head?_cons, Option.some_beq_some, hnegated]
  rfl

theorem readSegment_outside {mark : Char} (hmark : mark = '!' ∨ mark = '^') (fuel : Nat)
    (rest : List Char) : readSegment (fuel + 1) ('[' :: mark :: rest) =
      match bracketBody? rest with
      | some (body, after) => (readSegment fuel after).cons (.oneOf true (rangesOf body))
      | none => .unclosed := by
  have hnegated : (mark == '!' || mark == '^') = true := by simpa using hmark
  simp only [readSegment, List.head?_cons, Option.some_beq_some, hnegated]
  rfl

theorem WrittenToken.readSegment_append {written : List Char} {t : IgnoreToken}
    (h : WrittenToken written t) (fuel : Nat) (rest : List Char) :
    readSegment (fuel + 1) (written ++ rest) = (readSegment fuel rest).cons t := by
  cases h with
  | anyText => rfl
  | anyChar => rfl
  | escaped c => rfl
  | literal hc =>
    simp only [List.mem_cons, List.not_mem_nil, or_false, not_or] at hc
    simp [readSegment, hc]
  | inside hfirst hmore =>
    simp only [List.cons_append, List.append_assoc, List.nil_append]
    rw [readSegment_inside hfirst, bracketBody?_closed hmore]
  | outside hmark hmore =>
    simp only [List.cons_append, List.append_assoc, List.nil_append]
    rw [readSegment_outside hmark, bracketBody?_closed hmore]

theorem Unclosed.readSegment_cons {body : List Char} (h : Unclosed body) (fuel : Nat) :
    readSegment (fuel + 1) ('[' :: body) = .unclosed := by
  cases h with
  | empty => rfl
  | inside hfirst hmore =>
    rw [readSegment_inside hfirst, bracketBody?_unclosed (by simpa using hmore)]
  | outside hmark hbody => rw [readSegment_outside hmark, bracketBody?_unclosed hbody]

theorem WrittenToken.length_pos {written : List Char} {t : IgnoreToken}
    (h : WrittenToken written t) : 0 < written.length := by
  cases h <;> simp

theorem WrittenSegment.readSegment_eq {s : List Char} {r : SegmentReading}
    (h : WrittenSegment s r) {fuel : Nat} (hfuel : s.length < fuel) : readSegment fuel s = r := by
  induction h generalizing fuel with
  | nil => simp [readSegment]
  | loneBackslash =>
    obtain ⟨n, rfl⟩ := Nat.exists_eq_add_of_lt hfuel
    rfl
  | unclosed hopen =>
    obtain ⟨n, rfl⟩ := Nat.exists_eq_add_of_lt hfuel
    exact hopen.readSegment_cons _
  | cons ht _ ih =>
    obtain ⟨n, rfl⟩ := Nat.exists_eq_add_of_lt hfuel
    have hpos := ht.length_pos
    rw [ht.readSegment_append, ih (by rw [List.length_append]; omega)]

/-! ### Every segment is written in some way -/

theorem unclosed_or_exists_writtenToken (body : List Char) :
    Unclosed body ∨ ∃ written t rest, '[' :: body = written ++ rest ∧ WrittenToken written t := by
  match body with
  | [] => exact Or.inl .empty
  | first :: more =>
    by_cases hmark : first = '!' ∨ first = '^'
    · by_cases hclosed : ']' ∈ more.drop 1
      · obtain ⟨inner, rest, hmore, hinner⟩ := List.eq_append_cons_of_mem hclosed
        obtain ⟨held, tail, rfl⟩ : ∃ held tail, more = held :: tail := by
          cases more with
          | nil => cases hclosed
          | cons held tail => exact ⟨held, tail, rfl⟩
        rw [List.drop_one, List.tail_cons] at hmore
        refine Or.inr ⟨'[' :: first :: held :: inner ++ [']'], _, rest, ?_, .outside hmark hinner⟩
        simp [hmore]
      · exact Or.inl (.outside hmark hclosed)
    · by_cases hclosed : ']' ∈ more
      · obtain ⟨inner, rest, rfl, hinner⟩ := List.eq_append_cons_of_mem hclosed
        exact Or.inr ⟨_, _, rest, by simp, .inside hmark hinner⟩
      · exact Or.inl (.inside hmark hclosed)

/-- Either the segment ends here, in one of three ways, or a token comes first. -/
theorem writtenSegment_or_exists_writtenToken (s : List Char) :
    (∃ r, WrittenSegment s r) ∨ ∃ written t rest, s = written ++ rest ∧ WrittenToken written t := by
  cases s with
  | nil => exact Or.inl ⟨_, .nil⟩
  | cons c rest =>
    by_cases hc : c ∈ ['*', '?', '\\', '[']
    · simp only [List.mem_cons, List.not_mem_nil, or_false] at hc
      rcases hc with rfl | rfl | rfl | rfl
      · exact Or.inr ⟨_, _, rest, rfl, .anyText⟩
      · exact Or.inr ⟨_, _, rest, rfl, .anyChar⟩
      · cases rest with
        | nil => exact Or.inl ⟨_, .loneBackslash⟩
        | cons d rest => exact Or.inr ⟨_, _, rest, rfl, .escaped d⟩
      · rcases unclosed_or_exists_writtenToken rest with hopen | hclosed
        · exact Or.inl ⟨_, .unclosed hopen⟩
        · exact Or.inr hclosed
    · exact Or.inr ⟨_, _, rest, rfl, .literal hc⟩

theorem exists_writtenSegment (s : List Char) : ∃ r, WrittenSegment s r := by
  rcases writtenSegment_or_exists_writtenToken s with h | ⟨written, t, rest, rfl, ht⟩
  · exact h
  · have hlt : rest.length < (written ++ rest).length := by
      have hpos := ht.length_pos
      rw [List.length_append]
      omega
    obtain ⟨r, hr⟩ := exists_writtenSegment rest
    exact ⟨_, .cons ht hr⟩
termination_by s.length

/-- The reader of segments finds exactly what is written. -/
theorem writtenSegment_iff {s : List Char} {r : SegmentReading} {fuel : Nat}
    (hfuel : s.length < fuel) : WrittenSegment s r ↔ readSegment fuel s = r := by
  refine ⟨fun h => h.readSegment_eq hfuel, fun h => ?_⟩
  obtain ⟨r', hr'⟩ := exists_writtenSegment s
  rw [← h, hr'.readSegment_eq hfuel]
  exact hr'

/-! ## Patterns -/

/-- A segment that can be read to its end. -/
def ReadableSegment (s : String) : Prop := ∃ ts, WrittenSegment s.toList (.tokens ts)

/-- The patterns that are refused, by their segments as they are written. -/
inductive RefusedPattern (written : List String) : Prop where
  /-- Nothing is written. -/
  | empty (h : written = [""])
  /-- A segment ends in a backslash, and those before it can be read. -/
  | loneBackslash {before after : List String} {s : String} (h : written = before ++ s :: after)
    (hbefore : ∀ b ∈ before, ReadableSegment b) (hs : WrittenSegment s.toList .loneBackslash)
  /-- All segments can be read, and the end of a range of characters comes before its start. -/
  | reversed (h : ∀ s ∈ written, ReadableSegment s) {s : String} {ts : List IgnoreToken}
    {t : IgnoreToken} {r : CharRange} (hs : s ∈ written)
    (hts : WrittenSegment s.toList (.tokens ts)) (ht : t ∈ ts) (hr : r ∈ t.ranges)
    (hlt : r.last < r.first)

/-! ### The shape of a reading

Of what is read only the ranges and the kind of failure matter here. -/

/-- What is read without the pattern that comes of it. -/
inductive ReadingShape where
  | stated (ranges : List CharRange)
  | void
  | malformed

namespace ReadingShape

/-- The shape with ranges put before its own. -/
def withRanges (rs : List CharRange) : ReadingShape → ReadingShape
  | stated more => stated (rs ++ more)
  | other => other

@[simp] theorem withRanges_nil (x : ReadingShape) : x.withRanges [] = x := by
  cases x <;> rfl

/-- The shape of a segment with those after it. -/
def cons : SegmentReading → ReadingShape → ReadingShape
  | .tokens ts, x => x.withRanges (ts.flatMap IgnoreToken.ranges)
  | .unclosed, _ => void
  | .loneBackslash, _ => malformed

/-- The shape of the segments as they are written. -/
def ofSegments : List String → ReadingShape
  | [] => stated []
  | s :: rest => cons (readSegment (s.length + 1) s.toList) (ofSegments rest)

end ReadingShape

/-- The shape of a reading. -/
def LineReading.shape : LineReading → ReadingShape
  | pattern _ ranges => .stated ranges
  | void => .void
  | malformed => .malformed

open ReadingShape

theorem shape_readSegments (first needSlash : Bool) (written : List String) :
    (readSegments first needSlash written).shape = ofSegments written := by
  induction written generalizing first needSlash with
  | nil => rfl
  | cons s rest ih =>
    unfold readSegments
    by_cases hdeep : s = "**"
    · -- Double asterisks hold no ranges, wherever they stand.
      have hcons : ofSegments (s :: rest) = ofSegments rest := by
        rw [hdeep]
        exact withRanges_nil _
      rw [if_pos hdeep, hcons]
      split
      · rw [← ih false false]
        cases readSegments false false rest <;> rfl
      · split
        · rename_i hrest
          rw [List.isEmpty_iff.mp hrest]
          rfl
        · rw [← ih false true]
          cases readSegments false true rest <;> rfl
    · rw [if_neg hdeep]
      dsimp only
      by_cases hwide : s = "*"
      · have hcons : ofSegments (s :: rest) = ofSegments rest := by
          rw [hwide]
          exact withRanges_nil _
        rw [if_pos hwide, hcons, ← ih false true]
        cases readSegments false true rest <;> rfl
      · rw [if_neg hwide, ofSegments, ← ih false true]
        cases readSegment (s.length + 1) s.toList with
        | unclosed => rfl
        | loneBackslash => rfl
        | tokens ts => cases readSegments false true rest <;> rfl

theorem shape_readPattern {written : List String} (h : written ≠ []) (forDirectory : Bool) :
    (readPattern written forDirectory).shape = ofSegments written := by
  unfold readPattern
  split
  · exact absurd rfl h
  · cases forDirectory <;> rfl
  · rfl
  · rfl
  · exact shape_readSegments _ _ _

/-! ### Slashes and double asterisks -/

@[simp] theorem ofSegments_empty_cons (rest : List String) :
    ofSegments ("" :: rest) = ofSegments rest :=
  withRanges_nil _

@[simp] theorem ofSegments_deep_cons (rest : List String) :
    ofSegments ("**" :: rest) = ofSegments rest :=
  withRanges_nil _

/-- What ends in nothing or in double asterisks reads like what stands before. -/
theorem ofSegments_concat {last : String} (h : ofSegments [last] = .stated [])
    (before : List String) : ofSegments (before ++ [last]) = ofSegments before := by
  induction before with
  | nil => exact h
  | cons s before ih => rw [List.cons_append, ofSegments, ih, ofSegments]

theorem ofSegments_mergeDepths (written : List String) :
    ofSegments (mergeDepths written) = ofSegments written := by
  induction written using mergeDepths.induct with
  | case1 rest ih => rw [mergeDepths, ih, ofSegments_deep_cons ("**" :: rest)]
  | case2 s rest hs ih => rw [mergeDepths.eq_2 s rest hs, ofSegments, ih, ofSegments]
  | case3 => rfl

theorem mergeDepths_eq_nil_iff {written : List String} :
    mergeDepths written = [] ↔ written = [] := by
  induction written using mergeDepths.induct with
  | case1 rest ih => simpa [mergeDepths] using ih
  | case2 s rest hs ih => simp [mergeDepths.eq_2 s rest hs]
  | case3 => simp [mergeDepths]

theorem patternSegments_spec {written : List String} (h : written ≠ []) :
    ofSegments (patternSegments written) = ofSegments written ∧
      (patternSegments written = [] ↔ written = [""]) := by
  unfold patternSegments
  extract_lets tied
  have htied : ofSegments tied = ofSegments written ∧ (tied = [] ↔ written = [""]) := by
    unfold tied
    split
    · simp
    · rename_i s hs
      have hne : s ≠ "" := hs
      split <;> simp [hne]
    · split <;> simp
    · rename_i hempty _ _
      exact ⟨rfl, iff_of_false h (hempty [])⟩
  -- What is put at the end in place of a last slash has no ranges either.
  rw [← htied.1, ← htied.2]
  clear_value tied
  split
  · rename_i before hbefore
    have hconcat : tied = before.reverse ++ [""] := by
      simpa using congrArg List.reverse hbefore
    rw [List.reverse_cons, hconcat, ofSegments_concat rfl, ofSegments_concat rfl]
    simp
  · exact ⟨rfl, Iff.rfl⟩

/-! ### Refusal -/

theorem readSegment_eq_iff {s : String} {r : SegmentReading} :
    readSegment (s.length + 1) s.toList = r ↔ WrittenSegment s.toList r :=
  (writtenSegment_iff (by rw [String.length_toList]; exact Nat.lt_succ_self _)).symm

/-- Segments that can be read put their ranges in front, and the rest decides. -/
theorem ofSegments_append {before : List String} (h : ∀ b ∈ before, ReadableSegment b)
    (rest : List String) :
    ∃ rs, ofSegments (before ++ rest) = (ofSegments rest).withRanges rs ∧
      ∀ r, r ∈ rs ↔ ∃ s ∈ before, ∃ ts, WrittenSegment s.toList (.tokens ts) ∧
        ∃ t ∈ ts, r ∈ t.ranges := by
  induction before with
  | nil => exact ⟨[], by simp, by simp⟩
  | cons b before ih =>
    obtain ⟨ts, hts⟩ := h b List.mem_cons_self
    obtain ⟨rs, hrs, hmem⟩ := ih fun b' hb' => h b' (List.mem_cons_of_mem b hb')
    have hread := readSegment_eq_iff.mpr hts
    refine ⟨ts.flatMap IgnoreToken.ranges ++ rs, ?_, fun r => ?_⟩
    · rw [List.cons_append, ofSegments, hread, hrs]
      cases ofSegments rest with
      | stated more => simp [cons, withRanges]
      | void => rfl
      | malformed => rfl
    · -- The segment reads in one way only, so that its ranges are those of `ts`.
      have hunique : ∀ ts', WrittenSegment b.toList (.tokens ts') → ts' = ts := by
        intro ts' hts'
        rw [← readSegment_eq_iff, hread] at hts'
        exact (SegmentReading.tokens.inj hts').symm
      rw [List.mem_append, List.mem_flatMap, hmem, List.exists_mem_cons_iff]
      refine or_congr_left ⟨fun ht => ⟨ts, hts, ht⟩, ?_⟩
      rintro ⟨ts', hts', ht⟩
      rwa [hunique ts' hts'] at ht

/-- Either all segments can be read, or there is a first one that cannot. -/
theorem readable_or_exists_stop (written : List String) :
    (∀ s ∈ written, ReadableSegment s) ∨ ∃ before s after, written = before ++ s :: after ∧
      (∀ b ∈ before, ReadableSegment b) ∧
      (WrittenSegment s.toList .unclosed ∨ WrittenSegment s.toList .loneBackslash) := by
  induction written with
  | nil => exact Or.inl nofun
  | cons s rest ih =>
    obtain ⟨r, hr⟩ := exists_writtenSegment s.toList
    cases r with
    | unclosed => exact Or.inr ⟨[], s, rest, rfl, nofun, Or.inl hr⟩
    | loneBackslash => exact Or.inr ⟨[], s, rest, rfl, nofun, Or.inr hr⟩
    | tokens ts =>
      have hs : ReadableSegment s := ⟨ts, hr⟩
      rcases ih with hall | ⟨before, s', after, rfl, hbefore, hstop⟩
      · exact Or.inl (List.forall_mem_cons.mpr ⟨hs, hall⟩)
      · exact Or.inr ⟨s :: before, s', after, rfl, List.forall_mem_cons.mpr ⟨hs, hbefore⟩, hstop⟩

/-- A shape that is a fault: malformed, or with a range whose end comes before its start. -/
def ReadingShape.Faulty : ReadingShape → Prop
  | stated ranges => ∃ r ∈ ranges, r.last < r.first
  | void => False
  | malformed => True

theorem shape_readLine {written : List String} (h : written ≠ []) (forDirectory : Bool) :
    (readPattern (mergeDepths (patternSegments written)) forDirectory).shape =
      if written = [""] then .malformed else ofSegments written := by
  obtain ⟨hshape, hnil⟩ := patternSegments_spec h
  split
  · rename_i hempty
    rw [mergeDepths_eq_nil_iff.mpr (hnil.mpr hempty)]
    rfl
  · rename_i hempty
    rw [shape_readPattern (fun hmerged => hempty (hnil.mp (mergeDepths_eq_nil_iff.mp hmerged))),
      ofSegments_mergeDepths, hshape]

theorem RefusedPattern.faulty {written : List String} (h : RefusedPattern written)
    (hne : written ≠ [""]) : (ofSegments written).Faulty := by
  cases h with
  | empty hempty => exact absurd hempty hne
  | loneBackslash hwritten hbefore hs =>
    obtain ⟨rs, hrs, -⟩ := ofSegments_append hbefore (_ :: _)
    rw [hwritten, hrs, ofSegments, readSegment_eq_iff.mpr hs]
    trivial
  | reversed hall hs hts ht hr hlt =>
    obtain ⟨rs, hrs, hmem⟩ := ofSegments_append hall []
    rw [List.append_nil] at hrs
    rw [hrs]
    exact ⟨_, by rw [List.append_nil]; exact (hmem _).mpr ⟨_, hs, _, hts, _, ht, hr⟩, hlt⟩

theorem refusedPattern_of_faulty {written : List String} (h : (ofSegments written).Faulty) :
    RefusedPattern written := by
  rcases readable_or_exists_stop written with hall | ⟨before, s, after, rfl, hbefore, hs⟩
  · obtain ⟨rs, hrs, hmem⟩ := ofSegments_append hall []
    rw [List.append_nil] at hrs
    rw [hrs] at h
    obtain ⟨r, hr, hlt⟩ := h
    rw [List.append_nil, hmem] at hr
    obtain ⟨s, hs, ts, hts, t, ht, hr⟩ := hr
    exact .reversed hall hs hts ht hr hlt
  · obtain ⟨rs, hrs, -⟩ := ofSegments_append hbefore (s :: after)
    rcases hs with hs | hs
    · rw [hrs, ofSegments, readSegment_eq_iff.mpr hs] at h
      cases h
    · exact .loneBackslash rfl hbefore hs

theorem refusedPattern_iff {written : List String} (h : written ≠ []) (forDirectory : Bool) :
    RefusedPattern written ↔
      (readPattern (mergeDepths (patternSegments written)) forDirectory).shape.Faulty := by
  rw [shape_readLine h]
  split
  · rename_i hempty
    exact iff_of_true (.empty hempty) trivial
  · rename_i hempty
    exact ⟨fun hrefused => hrefused.faulty hempty, refusedPattern_of_faulty⟩

/-! ## Lines -/

/-- The pattern that a line writes, without the mark of one that takes paths back; a blank line, a
comment and a lone slash write none. -/
def patternOfLine? (line : List Char) : Option (List Char) :=
  let trimmed := trimmedLine line
  if trimmed = [] ∨ trimmed.head? = some '#' ∨ trimmed = ['/'] then none
  else some (if trimmed.head? = some '!' then trimmed.drop 1 else trimmed)

/-- A line that is refused: the pattern that it writes is. -/
def RefusedLine (line : List Char) : Prop :=
  ∃ pattern, patternOfLine? line = some pattern ∧
    RefusedPattern (segments (String.ofList pattern))

/-- **Exactly the refused lines are faults.** -/
theorem exists_ofLine?_eq_error_iff (line : List Char) :
    (∃ fault, IgnoreRule.ofLine? line = .error fault) ↔ RefusedLine line := by
  unfold RefusedLine patternOfLine? IgnoreRule.ofLine?
  extract_lets trimmed negated written forDirectory
  by_cases hvoid : trimmed = [] ∨ trimmed.head? = some '#' ∨ trimmed = ['/']
  · have hvoid' : (trimmed.isEmpty || trimmed.head? == some '#' || trimmed == ['/']) = true := by
      simpa [or_assoc] using hvoid
    simp [hvoid, hvoid']
  · have hvoid' : (trimmed.isEmpty || trimmed.head? == some '#' || trimmed == ['/']) = false := by
      simpa [and_assoc] using hvoid
    have hwritten : written ≠ [] := by simp [written, segments]
    have hnegated : (if trimmed.head? = some '!' then trimmed.drop 1 else trimmed) =
        if negated = true then trimmed.drop 1 else trimmed := by simp [negated]
    rw [if_neg hvoid, hvoid', hnegated]
    simp only [Option.some.injEq, exists_eq_left']
    rw [refusedPattern_iff hwritten forDirectory, if_neg Bool.false_ne_true]
    cases readPattern (mergeDepths (patternSegments written)) forDirectory with
    | void => simp [LineReading.shape, ReadingShape.Faulty]
    | malformed => simp [LineReading.shape, ReadingShape.Faulty]
    | pattern p ranges =>
      change _ ↔ ∃ r ∈ ranges, r.last < r.first
      dsimp only
      split
      · rename_i hrange
        simpa using hrange
      · rename_i hrange
        simpa using hrange

/-- A text states rules exactly if no line of it is refused. -/
theorem exists_ignoreRulesOf_eq_ok_iff (text : List Char) :
    (∃ rules, ignoreRulesOf text = .ok rules) ↔ ∀ line ∈ linesWithEnds text, ¬RefusedLine line := by
  simp only [← exists_ofLine?_eq_error_iff]
  constructor
  · rintro ⟨rules, hrules⟩ line hline ⟨fault, hfault⟩
    obtain ⟨read, hread, -⟩ := map_eq_ok_iff.mp hrules
    obtain ⟨rule, -, hrule⟩ := mem_of_mapM_eq_ok hread hline
    rw [hfault] at hrule
    cases hrule
  · intro hlines
    have hread : ∀ line ∈ linesWithEnds text, ∃ rule, IgnoreRule.ofLine? line = .ok rule := by
      intro line hline
      cases hrule : IgnoreRule.ofLine? line with
      | ok rule => exact ⟨rule, rfl⟩
      | error fault => exact absurd ⟨fault, hrule⟩ (hlines line hline)
    obtain ⟨read, hread⟩ := exists_mapM_eq_ok hread
    exact ⟨_, map_eq_ok_iff.mpr ⟨read, hread, rfl⟩⟩

/-! ## Files -/

namespace FileSystem

/-- The ignore file of a directory, if there is one, is a text without a refused line. -/
def SoundIgnoreFile (fs : FileSystem) (directory : Path) : Prop :=
  ∀ content, fs.content? (directory.join ".gitignore") = some content →
    ∃ text, content.read? = some text ∧ ∀ line ∈ linesWithEnds text, ¬RefusedLine line

/-- **A directory has rules exactly if its ignore file is sound.** -/
theorem exists_ignoreRules_eq_ok_iff (fs : FileSystem) (directory : Path) :
    (∃ rules, fs.ignoreRules directory = .ok rules) ↔ fs.SoundIgnoreFile directory := by
  unfold ignoreRules SoundIgnoreFile
  cases fs.content? (directory.join ".gitignore") with
  | none => simp
  | some content =>
    cases hread : content.read? with
    | none => simp [hread]
    | some text => simp [hread, exists_ignoreRulesOf_eq_ok_iff]

end FileSystem

end PlanAudit
