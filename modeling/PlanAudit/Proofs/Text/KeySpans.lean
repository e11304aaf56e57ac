import PlanAudit.Proofs.Text.ObjectKeys

/-!
# Where the keys of a literal and their values stand

The reader of object literals takes any text, well formed or not, and at any nesting level.  What it
reports always lies in the text in order: in front of a colon stands what spells the key, white
space apart, and behind the colon the value, which closes the brackets that it opens unless the text
ends first.  A value ends at a comma or a closing bracket, or so far in front of the next colon as
the next key is long.

## Main definitions

* `Enclosed`: a text that closes the brackets that it opens and none besides
* `SpellsKey key w`: the text `w` spells a key, white space apart
* `Placed`: an entry with the text around it
* `InOrder text lo es`: the entries lie in the text one behind the other, the first not before `lo`
* `KeyScan.Step`: what the reader can do at a character
* `Scanned`: what the reader knows of the text that it has read
* `InText`: the bounds of an entry

## Main results

* `step_cases`: the reader does nothing else
* `inOrder_objectKeysFrom`: what it reports lies in the text in order
* `objectKeys_disjoint`: the entries are in order and disjoint, and their values are enclosed
-/

namespace PlanAudit.Text

/-! ## Brackets of all kinds -/

/-- The text closes the brackets that it opens and none besides, all three kinds counted
together. -/
structure Enclosed (w : List Char) : Prop where
  nonneg : ∀ u, u <+: w → 0 ≤ bracketDepth u
  closed : bracketDepth w = 0

/-- Of two splits of a text the one further behind ends in the end of the other. -/
theorem exists_eq_append_of_length_le {u v x y : List Char} (h : u ++ v = x ++ y)
    (hle : u.length ≤ x.length) : ∃ z, x = u ++ z ∧ v = z ++ y := by
  rcases List.append_eq_append_iff.mp h with ⟨z, hx, hv⟩ | ⟨z, rfl, rfl⟩
  · exact ⟨z, hx, hv⟩
  · obtain rfl : z = [] := by
      rw [List.length_append] at hle
      exact List.eq_nil_of_length_eq_zero (by omega)
    exact ⟨[], by simp, rfl⟩

/-! ## Keys as they are written -/

/-- The text begins with the first character of the key and spells it, but for white space that does
not break the line. -/
structure SpellsKey (key w : List Char) : Prop where
  head : ∃ c rest, w = c :: rest ∧ isBlank c = false
  chars : ∀ c ∈ w, isKeyChar c = true ∨ isBlank c = true ∧ c ≠ '\n'
  kept : w.filter (fun c => !isBlank c) = key

theorem isBlank_eq_false_of_isKeyChar {c : Char} (hc : isKeyChar c = true) : isBlank c = false := by
  rcases Bool.or_eq_true_iff.mp hc with hword | hdollar
  · exact isBlank_eq_false_of_isWord hword
  · rw [beq_iff_eq.mp hdollar]
    decide

theorem SpellsKey.singleton {c : Char} (hc : isKeyChar c = true) : SpellsKey [c] [c] where
  head := ⟨c, [], rfl, isBlank_eq_false_of_isKeyChar hc⟩
  chars := List.forall_mem_singleton.mpr (.inl hc)
  kept := by simp [isBlank_eq_false_of_isKeyChar hc]

theorem SpellsKey.concat {key w : List Char} (h : SpellsKey key w) {c : Char}
    (hc : isKeyChar c = true ∨ isBlank c = true ∧ c ≠ '\n') :
    SpellsKey (key ++ [c].filter fun c => !isBlank c) (w ++ [c]) where
  head := by
    obtain ⟨x, rest, rfl, hx⟩ := h.head
    exact ⟨x, rest ++ [c], rfl, hx⟩
  chars := List.forall_mem_append.mpr ⟨h.chars, List.forall_mem_singleton.mpr hc⟩
  kept := by rw [List.filter_append, h.kept]

theorem SpellsKey.concat_key {key w : List Char} (h : SpellsKey key w) {c : Char}
    (hc : isKeyChar c = true) : SpellsKey (key ++ [c]) (w ++ [c]) := by
  have hread := h.concat (.inl hc)
  rwa [List.filter_cons_of_pos (by simp [isBlank_eq_false_of_isKeyChar hc])] at hread

theorem SpellsKey.concat_blank {key w : List Char} (h : SpellsKey key w) {c : Char}
    (hc : isBlank c = true) (hfeed : c ≠ '\n') : SpellsKey key (w ++ [c]) := by
  have hread := h.concat (.inr ⟨hc, hfeed⟩)
  rwa [List.filter_cons_of_neg (by simp [hc]), List.filter_nil, List.append_nil] at hread

theorem SpellsKey.length_le {key w : List Char} (h : SpellsKey key w) : key.length ≤ w.length :=
  h.kept ▸ List.length_filter_le _ w

theorem SpellsKey.length_pos {key w : List Char} (h : SpellsKey key w) : 0 < w.length := by
  obtain ⟨c, rest, rfl, -⟩ := h.head
  exact Nat.succ_pos _

/-- The end of what spells a key is as long as the key. -/
theorem SpellsKey.exists_last {key w : List Char} (h : SpellsKey key w) :
    ∃ gap last, w = gap ++ last ∧ last.length = key.length := by
  refine ⟨_, _, (List.take_append_drop (w.length - key.length) w).symm, ?_⟩
  rw [List.length_drop]
  exact Nat.sub_sub_self h.length_le

/-- No bracket stands in what spells a key. -/
theorem SpellsKey.bracketStep_eq_zero {key w : List Char} (h : SpellsKey key w) :
    ∀ c ∈ w, bracketStep c = 0 := by
  intro c hc
  refine Text.bracketStep_eq_zero ?_
  rcases h.chars c hc with hkey | ⟨hblank, -⟩
  · exact not_bracket_of_class (by decide) hkey
  · exact not_bracket_of_class (by decide) hblank

/-! ## Entries in the text -/

/-- The entry with the text around it: what is written in front of its colon spells its key, and the
value behind the colon closes its brackets unless it runs to the end of the text. -/
structure Placed (text : List Char) (e : ObjectKey) (front written value rest : List Char) :
    Prop where
  split : text = front ++ (written ++ ':' :: (value ++ rest))
  key : SpellsKey e.key.toList written
  starts : e.valueStart = front.length + written.length + 1
  ends : e.valueEnd = e.valueStart + value.length
  enclosed : rest = [] ∨ Enclosed value

/-- A comma or a closing bracket. -/
def isSeparator (c : Char) : Bool := c == ',' || isCloser c

/-- The entries lie in the text one behind the other, and what spells the key of the first does not
begin before `lo`.  A value ends at the end of the text, at a comma or a closing bracket, or as many
characters in front of the next colon as the next key has. -/
inductive InOrder (text : List Char) : Nat → List ObjectKey → Prop
  | nil {lo : Nat} : InOrder text lo []
  | last {lo : Nat} {e : ObjectKey} {front written value : List Char}
      (he : Placed text e front written value []) (hlo : lo ≤ front.length) : InOrder text lo [e]
  | ended {lo : Nat} {e : ObjectKey} {front written value rest : List Char} {c : Char}
      {es : List ObjectKey} (he : Placed text e front written value (c :: rest))
      (hlo : lo ≤ front.length) (hc : isSeparator c = true)
      (hes : InOrder text (e.valueEnd + 1) es) : InOrder text lo (e :: es)
  | joined {lo : Nat} {e next : ObjectKey} {front written value rest : List Char}
      {es : List ObjectKey} (he : Placed text e front written value rest) (hlo : lo ≤ front.length)
      (hnext : e.valueEnd + next.key.toList.length + 1 = next.valueStart)
      (hes : InOrder text e.valueStart (next :: es)) : InOrder text lo (e :: next :: es)

theorem InOrder.mono {text : List Char} {lo lo' : Nat} {es : List ObjectKey}
    (h : InOrder text lo es) (hle : lo' ≤ lo) : InOrder text lo' es := by
  cases h with
  | nil => exact .nil
  | last he hlo => exact .last he (hle.trans hlo)
  | ended he hlo hc hes => exact .ended he (hle.trans hlo) hc hes
  | joined he hlo hnext hes => exact .joined he (hle.trans hlo) hnext hes

/-! ## What the reader can do -/

namespace KeyScan

/-- What the reader can do at the character `c` at position `i`: the entries that it reports, and
the state that it goes on with, if it does. -/
inductive Step (depth i : Nat) (s : KeyScan) (c : Char) : List ObjectKey → Option KeyScan → Prop
  /-- The brackets that are open are no fewer, and no part of a key is kept. -/
  | clears {level : Nat} (inKey : Bool) (hlevel : (level : Int) = s.level + bracketStep c)
      (hle : s.level ≤ level) : Step depth i s c [] (some ⟨level, [], inKey, s.pending⟩)
  /-- A bracket is closed on another level. -/
  | closes {level : Nat} (hc : bracketStep c = -1) (hlevel : s.level = level + 1)
      (hne : s.level ≠ depth) : Step depth i s c [] (some { s with level := level })
  /-- The bracket around the keys is closed. -/
  | leaves {level : Nat} (hc : isCloser c = true) (hlevel : s.level = level + 1)
      (hdepth : s.level = depth) :
      Step depth i s c (s.entry i) (some { s with level := level, pending := none })
  /-- The literal is closed, and its own keys are those that are asked for. -/
  | stops (hc : isCloser c = true) (hlevel : s.level = 0) (hdepth : s.level = depth) :
      Step depth i s c (s.entry i) none
  /-- The literal is closed, and keys further inside are asked for. -/
  | breaksOff (hlevel : s.level = 0) (hne : s.level ≠ depth) : Step depth i s c [] none
  /-- A colon makes a key of the characters that are kept. -/
  | colon (hdepth : s.level = depth) (hc : c = ':') (hkey : s.key ≠ []) :
      Step depth i s c (s.entry (i - s.key.length))
        (some ⟨s.level, [], false, some (s.key, i + 1)⟩)
  /-- A comma ends a value. -/
  | comma (hdepth : s.level = depth) (hc : c = ',') :
      Step depth i s c (s.entry i) (some ⟨s.level, [], true, none⟩)
  /-- The character is kept for a key. -/
  | collects (hdepth : s.level = depth) (hin : s.inKey = true) (hc : isKeyChar c = true)
      (hstep : bracketStep c = 0) : Step depth i s c [] (some { s with key := c :: s.key })
  /-- Nothing changes; where a key may stand, the character is white space. -/
  | keeps (hstep : bracketStep c = 0)
      (hc : s.level = depth → s.inKey = true → isBlank c = true ∧ c ≠ '\n') :
      Step depth i s c [] (some s)

/-- **The reader does nothing else.** -/
theorem step_cases (depth i : Nat) (s : KeyScan) (c : Char) :
    Step depth i s c (s.step depth i c).1 (s.step depth i c).2 := by
  rcases bracketStep_cases c with
    ⟨hopen, hstep⟩ | ⟨hopen, hclose, hstep⟩ | ⟨hopen, hclose, hstep⟩
  · rw [step, if_pos hopen]
    exact .clears _ (by rw [hstep]; rfl) (Nat.le_succ _)
  · rw [step, if_neg (Bool.not_eq_true _ ▸ hopen), if_pos hclose]
    by_cases hdepth : s.level = depth
    · cases hlevel : s.level with
      | zero => simpa [hlevel, ← hdepth] using Step.stops hclose hlevel hdepth
      | succ level => simpa [hlevel, ← hdepth] using Step.leaves hclose hlevel hdepth
    · cases hlevel : s.level with
      | zero =>
        have hne : 0 ≠ depth := hlevel ▸ hdepth
        simpa [hlevel, hne] using Step.breaksOff hlevel hdepth
      | succ level =>
        have hne : level + 1 ≠ depth := hlevel ▸ hdepth
        simpa [hlevel, hne] using Step.closes hstep hlevel hdepth
  · have hsame : (s.level : Int) = s.level + bracketStep c := by rw [hstep, Int.add_zero]
    rw [step, if_neg (Bool.not_eq_true _ ▸ hopen), if_neg (Bool.not_eq_true _ ▸ hclose)]
    split
    · rename_i hdepth
      split
      · rename_i hcolon
        exact .colon hdepth hcolon.1 hcolon.2.2
      · split
        · rename_i hcomma
          exact .comma hdepth hcomma
        · split
          · exact .clears true hsame le_rfl
          · rename_i hfeed
            split
            · rename_i hkey
              have hc : isKeyChar c = true := by
                simpa [isKeyChar, isWord, or_assoc] using hkey.2
              exact .collects hdepth hkey.1 hc hstep
            · split
              · exact .clears s.inKey hsame le_rfl
              · rename_i hother
                refine .keeps hstep fun _ hin => ⟨?_, hfeed⟩
                by_contra hblank
                exact hother ⟨hin, hblank⟩
    · rename_i hne
      exact .keeps hstep fun hdepth => absurd hdepth hne

end KeyScan

/-- One character is read, and the rest of the text from the state behind it. -/
theorem exists_step_objectKeysFrom (depth i : Nat) (s : KeyScan) (c : Char) (t : List Char) :
    ∃ found next, KeyScan.Step depth i s c found next ∧ objectKeysFrom depth i s (c :: t) =
      found ++ next.elim [] fun s' => objectKeysFrom depth (i + 1) s' t := by
  refine ⟨_, _, s.step_cases depth i c, ?_⟩
  rw [objectKeysFrom]
  rcases s.step depth i c with ⟨found, next⟩
  cases next with
  | none => exact (List.append_nil found).symm
  | some s' => rfl

/-- A key that waits is reported next, with the start of its value. -/
theorem exists_objectKeysFrom_of_pending {depth i start : Nat} {s : KeyScan} {key t : List Char}
    (hpending : s.pending = some (key, start)) (hdepth : depth ≤ s.level) :
    ∃ stop es, objectKeysFrom depth i s t = ⟨String.ofList key.reverse, start, stop⟩ :: es := by
  have hentry (stop : Nat) : s.entry stop = [⟨String.ofList key.reverse, start, stop⟩] := by
    rw [KeyScan.entry, hpending]
  induction t generalizing i s with
  | nil => exact ⟨i, [], hentry i⟩
  | cons c t ih =>
    have hnow (stop : Nat) (es : List ObjectKey) : ∃ stop' es', s.entry stop ++ es =
        ⟨String.ofList key.reverse, start, stop'⟩ :: es' := ⟨stop, es, by rw [hentry]; rfl⟩
    have hlater {s' : KeyScan} (hsame : s'.pending = s.pending) (hle : depth ≤ s'.level) :
        ∃ stop es, [] ++ (some s').elim [] (fun s' => objectKeysFrom depth (i + 1) s' t) =
          ⟨String.ofList key.reverse, start, stop⟩ :: es := by
      refine ih (hsame.trans hpending) hle fun stop => ?_
      rw [KeyScan.entry, hsame.trans hpending]
    obtain ⟨found, next, hstep, hread⟩ := exists_step_objectKeysFrom depth i s c t
    rw [hread]
    cases hstep with
    | clears inKey hlevel hle => exact hlater rfl (hdepth.trans hle)
    | closes hc hlevel hne => exact hlater rfl (by dsimp only; omega)
    | leaves hc hlevel hdepth => exact hnow _ _
    | stops hc hlevel hdepth => exact hnow _ _
    | breaksOff hlevel hne => omega
    | colon hdepth hc hkey => exact hnow _ _
    | comma hdepth hc => exact hnow _ _
    | collects hlevel hin hc hstep => exact hlater rfl hdepth
    | keeps hstep hc => exact hlater rfl hdepth

/-! ## What the reader knows -/

/-- The key that waits, if there is one, is spelled in the text that was read, not before `lo`; and
behind its colon the brackets that are open are those above `depth`. -/
def Waits (depth lo : Nat) (seen : List Char) (level : Nat) (pending : Option (List Char × Nat)) :
    Prop :=
  ∀ key start, pending = some (key, start) → ∃ front written value,
    seen = front ++ (written ++ ':' :: value) ∧ lo ≤ front.length ∧ SpellsKey key.reverse written ∧
      start = front.length + written.length + 1 ∧ (∀ u, u <+: value → 0 ≤ bracketDepth u) ∧
      (level : Int) = depth + bracketDepth value

/-- The characters that are kept for a key are spelled at the end of the text that was read, not
before `floor`. -/
def Collects (depth floor : Nat) (seen : List Char) (s : KeyScan) : Prop :=
  s.key ≠ [] → s.inKey = true ∧ s.level ≤ depth ∧ (s.level = depth →
    ∃ front written, seen = front ++ written ∧ floor ≤ front.length ∧
      SpellsKey s.key.reverse written)

/-- Where the search for the next key began: behind the colon of the key that waits, or at `lo`. -/
def KeyScan.since (s : KeyScan) (lo : Nat) : Nat :=
  match s.pending with
  | some (_, start) => start
  | none => lo

/-- What the reader knows of the text that it has read, of which all in front of `lo` is settled. -/
structure Scanned (depth lo : Nat) (seen : List Char) (s : KeyScan) : Prop where
  lo_le : lo ≤ seen.length
  collected : Collects depth (s.since lo) seen s
  waiting : Waits depth lo seen s.level s.pending

theorem collects_nil {depth floor level : Nat} {seen : List Char} {inKey : Bool}
    {pending : Option (List Char × Nat)} : Collects depth floor seen ⟨level, [], inKey, pending⟩ :=
  fun hkey => absurd rfl hkey

theorem waits_none {depth lo level : Nat} {seen : List Char} : Waits depth lo seen level none :=
  fun _ _ h => nomatch h

theorem scanned_initial (depth : Nat) (seen : List Char) :
    Scanned depth seen.length seen .initial :=
  ⟨le_rfl, collects_nil, waits_none⟩

/-- The value of a key that waits goes on. -/
theorem Waits.concat {depth lo level level' : Nat} {seen : List Char} {c : Char}
    {pending : Option (List Char × Nat)} (h : Waits depth lo seen level pending)
    (hlevel : (level' : Int) = level + bracketStep c) (hdepth : depth ≤ level → depth ≤ level') :
    Waits depth lo (seen ++ [c]) level' pending := by
  intro key start hpending
  obtain ⟨front, written, value, rfl, hlo, hspells, hstart, hnonneg, hopen⟩ := h key start hpending
  have hvalue := hnonneg value (List.prefix_refl value)
  have hnext : bracketDepth (value ++ [c]) = bracketDepth value + bracketStep c := by
    rw [bracketDepth_append, bracketDepth_cons, bracketDepth_nil, Int.add_zero]
  refine ⟨front, written, value ++ [c], by simp, hlo, hspells, hstart, fun u hu => ?_, by omega⟩
  rcases List.prefix_concat_iff.mp hu with rfl | hu
  · rw [hnext]
    omega
  · exact hnonneg u hu

namespace Scanned

variable {depth lo : Nat} {seen : List Char} {s : KeyScan} {c : Char}

theorem le_length_concat (h : Scanned depth lo seen s) : lo ≤ (seen ++ [c]).length := by
  rw [List.length_append]
  exact h.lo_le.trans (Nat.le_add_right _ _)

/-- The search for the next key began in the text that was read. -/
theorem since_le (h : Scanned depth lo seen s) : s.since lo ≤ seen.length := by
  unfold KeyScan.since
  split
  · rename_i key start hpending
    obtain ⟨front, written, value, rfl, -, -, rfl, -⟩ := h.waiting key start hpending
    simp only [List.length_append, List.length_cons]
    omega
  · exact h.lo_le

theorem clears (h : Scanned depth lo seen s) {level : Nat} (inKey : Bool)
    (hlevel : (level : Int) = s.level + bracketStep c) (hle : s.level ≤ level) :
    Scanned depth lo (seen ++ [c]) ⟨level, [], inKey, s.pending⟩ :=
  ⟨h.le_length_concat, collects_nil, h.waiting.concat hlevel fun hdepth => hdepth.trans hle⟩

theorem closes (h : Scanned depth lo seen s) {level : Nat} (hc : bracketStep c = -1)
    (hlevel : s.level = level + 1) (hne : s.level ≠ depth) :
    Scanned depth lo (seen ++ [c]) { s with level := level } := by
  have hbelow : (level : Int) = s.level + bracketStep c := by omega
  have habove : depth ≤ s.level → depth ≤ level := by omega
  refine ⟨h.le_length_concat, fun hkey => ?_, h.waiting.concat hbelow habove⟩
  obtain ⟨hin, hle, -⟩ := h.collected hkey
  exact ⟨hin, by dsimp only; omega, fun hdepth => absurd hdepth (by dsimp only; omega)⟩

/-- What is kept of a key on the level that was left is not looked at again. -/
theorem leaves (h : Scanned depth lo seen s) {level : Nat} (hlevel : s.level = level + 1)
    (hdepth : s.level = depth) : Scanned depth (seen.length + 1) (seen ++ [c])
      { s with level := level, pending := none } := by
  refine ⟨by simp, fun hkey => ?_, waits_none⟩
  obtain ⟨hin, -, -⟩ := h.collected hkey
  exact ⟨hin, by dsimp only; omega, fun hback => absurd hback (by dsimp only; omega)⟩

theorem colon (h : Scanned depth lo seen s) (hdepth : s.level = depth) (hkey : s.key ≠ []) :
    Scanned depth (s.since lo) (seen ++ [':'])
      ⟨s.level, [], false, some (s.key, seen.length + 1)⟩ := by
  refine ⟨?_, collects_nil, fun key start hpending => ?_⟩
  · rw [List.length_append]
    exact h.since_le.trans (Nat.le_add_right _ _)
  · obtain ⟨rfl, rfl⟩ := Prod.mk.inj (Option.some.inj hpending)
    obtain ⟨-, -, hspelled⟩ := h.collected hkey
    obtain ⟨front, written, rfl, hfloor, hspells⟩ := hspelled hdepth
    refine ⟨front, written, [], by simp, hfloor, hspells, by simp, fun u hu => ?_, ?_⟩
    · rw [List.prefix_nil.mp hu]
      exact Int.le_refl 0
    · rw [hdepth, bracketDepth_nil, Int.add_zero]

theorem comma (inKey : Bool) (level : Nat) :
    Scanned depth (seen.length + 1) (seen ++ [c]) ⟨level, [], inKey, none⟩ :=
  ⟨by simp, collects_nil, waits_none⟩

theorem collects (h : Scanned depth lo seen s) (hdepth : s.level = depth) (hin : s.inKey = true)
    (hc : isKeyChar c = true) (hstep : bracketStep c = 0) :
    Scanned depth lo (seen ++ [c]) { s with key := c :: s.key } := by
  refine ⟨h.le_length_concat, fun _ => ⟨hin, hdepth.le, fun _ => ?_⟩,
    h.waiting.concat (by rw [hstep, Int.add_zero]) id⟩
  rcases eq_or_ne s.key [] with hnil | hkey
  · exact ⟨seen, [c], rfl, h.since_le, by simpa [hnil] using SpellsKey.singleton hc⟩
  · obtain ⟨-, -, hspelled⟩ := h.collected hkey
    obtain ⟨front, written, rfl, hfloor, hspells⟩ := hspelled hdepth
    exact ⟨front, written ++ [c], List.append_assoc _ _ _, hfloor, by
      simpa using hspells.concat_key hc⟩

theorem keeps (h : Scanned depth lo seen s) (hstep : bracketStep c = 0)
    (hc : s.level = depth → s.inKey = true → isBlank c = true ∧ c ≠ '\n') :
    Scanned depth lo (seen ++ [c]) s := by
  refine ⟨h.le_length_concat, fun hkey => ?_, h.waiting.concat (by rw [hstep, Int.add_zero]) id⟩
  obtain ⟨hin, hle, hspelled⟩ := h.collected hkey
  refine ⟨hin, hle, fun hdepth => ?_⟩
  obtain ⟨front, written, rfl, hfloor, hspells⟩ := hspelled hdepth
  obtain ⟨hblank, hfeed⟩ := hc hdepth hin
  exact ⟨front, written ++ [c], List.append_assoc _ _ _, hfloor, hspells.concat_blank hblank hfeed⟩

/-! ## What is reported -/

/-- The value of the key that waits ends here. -/
theorem exists_placed (h : Scanned depth lo seen s) {key : List Char} {start : Nat}
    (hpending : s.pending = some (key, start)) (rest : List Char)
    (hend : rest = [] ∨ s.level = depth) : ∃ front written value,
      Placed (seen ++ rest) ⟨String.ofList key.reverse, start, seen.length⟩ front written value
        rest ∧ lo ≤ front.length := by
  obtain ⟨front, written, value, rfl, hlo, hspells, hstart, hnonneg, hopen⟩ :=
    h.waiting key start hpending
  refine ⟨front, written, value, ⟨by simp, ?_, hstart, ?_, hend.imp_right fun hdepth => ?_⟩, hlo⟩
  · rwa [String.toList_ofList]
  · simp only [List.length_append, List.length_cons, hstart]
    omega
  · exact ⟨hnonneg, by omega⟩

/-- At the colon of the next key the value of the key that waits is taken to end as many characters
before as the next key has; these all stand behind the first character of the next key. -/
theorem exists_placed_colon (h : Scanned depth lo seen s) {key : List Char} {start : Nat}
    (hpending : s.pending = some (key, start)) (hdepth : s.level = depth) (hkey : s.key ≠ [])
    (rest : List Char) : ∃ front written value rest',
      Placed (seen ++ rest) ⟨String.ofList key.reverse, start, seen.length - s.key.length⟩ front
        written value rest' ∧ lo ≤ front.length := by
  obtain ⟨front, written, value, hseen, hlo, hspells, hstart, hnonneg, hopen⟩ :=
    h.waiting key start hpending
  obtain ⟨-, -, hspelled⟩ := h.collected hkey
  obtain ⟨front', written', hseen', hfloor, hspells'⟩ := hspelled hdepth
  have hsince : s.since lo = start := by rw [KeyScan.since, hpending]
  -- What spells the next key stands in the value, and the end of it is as long as the key.
  obtain ⟨between, -, hvalue⟩ : ∃ between, front' = (front ++ (written ++ [':'])) ++ between ∧
      value = between ++ written' := by
    refine exists_eq_append_of_length_le ?_ ?_
    · rw [← hseen', hseen]
      simp
    · simp only [List.length_append, List.length_singleton]
      omega
  obtain ⟨gap, last, rfl, hlast⟩ := hspells'.exists_last
  rw [List.length_reverse] at hlast
  have hlastDepth : bracketDepth last = 0 := bracketDepth_eq_zero fun c hc =>
    hspells'.bracketStep_eq_zero c (List.mem_append_right gap hc)
  rw [← List.append_assoc] at hvalue
  subst hvalue
  have henclosed : Enclosed (between ++ gap) := by
    refine ⟨fun u hu => hnonneg u (hu.trans (List.prefix_append _ last)), ?_⟩
    rw [bracketDepth_append] at hopen
    omega
  refine ⟨front, written, between ++ gap, last ++ rest, ⟨?_, ?_, hstart, ?_, .inr henclosed⟩, hlo⟩
  · rw [hseen]
    simp
  · rwa [String.toList_ofList]
  · rw [hseen]
    simp only [List.length_append, List.length_cons, hstart, hlast]
    omega

end Scanned

/-- Behind a comma or a closing bracket the reader begins anew. -/
theorem Scanned.inOrder_entry {depth lo : Nat} {seen rest : List Char} {s : KeyScan} {c : Char}
    {es : List ObjectKey} (h : Scanned depth lo seen s) (hdepth : s.level = depth)
    (hc : isSeparator c = true) (hes : InOrder (seen ++ c :: rest) (seen.length + 1) es) :
    InOrder (seen ++ c :: rest) lo (s.entry seen.length ++ es) := by
  rw [KeyScan.entry]
  split
  · rename_i key start hpending
    obtain ⟨front, written, value, hplaced, hlo⟩ :=
      h.exists_placed hpending (c :: rest) (.inr hdepth)
    exact .ended hplaced hlo hc hes
  · exact hes.mono (h.lo_le.trans (Nat.le_succ _))

/-- **What the reader reports lies in the text in order**, whatever the text is. -/
theorem inOrder_objectKeysFrom {depth lo : Nat} {seen : List Char} {s : KeyScan}
    (h : Scanned depth lo seen s) (rest : List Char) :
    InOrder (seen ++ rest) lo (objectKeysFrom depth seen.length s rest) := by
  -- Induction on the rest of the text; what is known of the text read so far carries it.
  induction rest generalizing lo seen s with
  | nil =>
    rw [objectKeysFrom, KeyScan.entry]
    split
    · rename_i key start hpending
      obtain ⟨front, written, value, hplaced, hlo⟩ := h.exists_placed hpending [] (.inl rfl)
      exact .last hplaced hlo
    · exact .nil
  | cons c rest ih =>
    have hrest {lo' : Nat} {s' : KeyScan} (h' : Scanned depth lo' (seen ++ [c]) s') :
        InOrder (seen ++ c :: rest) lo' (objectKeysFrom depth (seen.length + 1) s' rest) := by
      simpa using ih h'
    obtain ⟨found, next, hstep, hread⟩ :=
      exists_step_objectKeysFrom depth seen.length s c rest
    rw [hread]
    cases hstep with
    | clears inKey hlevel hle => exact hrest (h.clears inKey hlevel hle)
    | closes hc hlevel hne => exact hrest (h.closes hc hlevel hne)
    | leaves hc hlevel hdepth =>
      exact h.inOrder_entry hdepth (by simp [isSeparator, hc]) (hrest (h.leaves hlevel hdepth))
    | stops hc hlevel hdepth =>
      exact h.inOrder_entry hdepth (by simp [isSeparator, hc]) .nil
    | breaksOff hlevel hne => exact .nil
    | comma hdepth hc =>
      exact h.inOrder_entry hdepth (by simp [isSeparator, hc]) (hrest (Scanned.comma true s.level))
    | collects hdepth hin hc hstep => exact hrest (h.collects hdepth hin hc hstep)
    | keeps hstep hc => exact hrest (h.keeps hstep hc)
    | colon hdepth hc hkey =>
      subst hc
      have hes := hrest (h.colon hdepth hkey)
      rw [KeyScan.entry]
      split
      · rename_i key start hpending
        obtain ⟨front, written, value, rest', hplaced, hlo⟩ :=
          h.exists_placed_colon hpending hdepth hkey (':' :: rest)
        obtain ⟨stop, es, hnext⟩ := exists_objectKeysFrom_of_pending (i := seen.length + 1)
          (s := ⟨s.level, [], false, some (s.key, seen.length + 1)⟩) (t := rest) rfl hdepth.ge
        have hsince : s.since lo = start := by rw [KeyScan.since, hpending]
        have hlength : s.key.length ≤ seen.length := by
          obtain ⟨-, -, hspelled⟩ := h.collected hkey
          obtain ⟨before, written, rfl, -, hspells⟩ := hspelled hdepth
          have hle := hspells.length_le
          rw [List.length_reverse] at hle
          rw [List.length_append]
          omega
        rw [hsince, hnext] at hes
        rw [Option.elim_some, hnext]
        refine .joined hplaced hlo ?_ hes
        simp only [String.toList_ofList, List.length_reverse]
        omega
      · rename_i hpending
        have hsince : s.since lo = lo := by rw [KeyScan.since, hpending]
        rw [hsince] at hes
        exact hes

/-- **The keys of a literal lie in the text in order**, behind the position that it is read from. -/
theorem inOrder_objectKeys (text : List Char) (start depth : Nat) :
    InOrder text start (objectKeys text start depth) := by
  rw [objectKeys]
  rcases Nat.le_total start text.length with hle | hge
  · have hlength : (text.take start).length = start := by
      rw [List.length_take, Nat.min_eq_left hle]
    have horder :=
      inOrder_objectKeysFrom (scanned_initial depth (text.take start)) (text.drop start)
    rwa [List.take_append_drop, hlength] at horder
  · rw [List.drop_eq_nil_of_le hge]
    exact .nil

/-! ## Order -/

/-- The bounds of an entry of a literal that is read from `start` on: its value stands behind a
colon, and it closes its brackets unless it runs to the end of the text. -/
structure InText (text : List Char) (start : Nat) (e : ObjectKey) : Prop where
  start_lt : start < e.valueStart
  start_le_end : e.valueStart ≤ e.valueEnd
  end_le : e.valueEnd ≤ text.length
  colon : text[e.valueStart - 1]? = some ':'
  enclosed : e.valueEnd = text.length ∨ Enclosed (slice text e.valueStart e.valueEnd)

namespace Placed

variable {text front written value rest : List Char} {e : ObjectKey}

/-- The value stands behind the colon. -/
theorem exists_head (h : Placed text e front written value rest) :
    ∃ head, text = head ++ (value ++ rest) ∧ e.valueStart = head.length := by
  refine ⟨front ++ (written ++ [':']), ?_, ?_⟩
  · rw [h.split]
    simp
  · rw [h.starts]
    simp [Nat.add_assoc]

theorem colon (h : Placed text e front written value rest) :
    text[e.valueStart - 1]? = some ':' := by
  have hcolon : e.valueStart - 1 = (front ++ written).length := by
    rw [h.starts, List.length_append, Nat.add_sub_cancel]
  rw [hcolon, h.split, ← List.append_assoc, List.getElem?_append_right (Nat.le_refl _),
    Nat.sub_self]
  rfl

theorem inText (h : Placed text e front written value rest) {start : Nat}
    (hlo : start ≤ front.length) : InText text start e := by
  obtain ⟨head, hsplit, hhead⟩ := h.exists_head
  have hlength := congrArg List.length hsplit
  rw [List.length_append, List.length_append] at hlength
  have hstarts := h.starts
  have hends := h.ends
  refine ⟨by omega, by omega, by omega, h.colon, ?_⟩
  refine h.enclosed.imp (fun hrest => ?_) fun hvalue => ?_
  · rw [hrest, List.length_nil] at hlength
    omega
  · rwa [hends, hhead, hsplit, slice_append_append]

end Placed

namespace InOrder

variable {text : List Char} {lo : Nat} {es : List ObjectKey}

theorem exists_placed (h : InOrder text lo es) : ∀ e ∈ es, ∃ front written value rest,
      Placed text e front written value rest ∧ lo ≤ front.length := by
  induction h with
  | nil => exact nofun
  | last he hlo => exact List.forall_mem_singleton.mpr ⟨_, _, _, _, he, hlo⟩
  | ended he hlo hc hes ih =>
    refine List.forall_mem_cons.mpr ⟨⟨_, _, _, _, he, hlo⟩, fun e hmem => ?_⟩
    obtain ⟨front, written, value, rest, hplaced, hle⟩ := ih e hmem
    have hstart := (he.inText hlo).start_lt
    have hends := (he.inText hlo).start_le_end
    exact ⟨front, written, value, rest, hplaced, by omega⟩
  | joined he hlo hnext hes ih =>
    refine List.forall_mem_cons.mpr ⟨⟨_, _, _, _, he, hlo⟩, fun e hmem => ?_⟩
    obtain ⟨front, written, value, rest, hplaced, hle⟩ := ih e hmem
    have hstart := (he.inText hlo).start_lt
    exact ⟨front, written, value, rest, hplaced, by omega⟩

theorem inText (h : InOrder text lo es) : ∀ e ∈ es, InText text lo e := by
  intro e he
  obtain ⟨front, written, value, rest, hplaced, hlo⟩ := h.exists_placed e he
  exact hplaced.inText hlo

theorem pairwise (h : InOrder text lo es) :
    es.Pairwise fun e later => e.valueEnd < later.valueStart := by
  induction h with
  | nil => exact .nil
  | last he hlo => exact List.pairwise_singleton _ _
  | ended he hlo hc hes ih =>
    exact .cons (fun later hmem => Nat.lt_of_succ_lt (hes.inText later hmem).start_lt) ih
  | @joined lo e next front written value rest es he hlo hnext hes ih =>
    have hfirst : e.valueEnd < next.valueStart := by omega
    have hspan := (hes.inText next List.mem_cons_self).start_le_end
    have hlater := (List.pairwise_cons.mp ih).1
    exact .cons (List.forall_mem_cons.mpr ⟨hfirst, fun later hmem =>
      hfirst.trans (hspan.trans_lt (hlater later hmem))⟩) ih

end InOrder

/-- **The entries of a literal are in order and disjoint**, on any text and at any nesting level.
Each value starts behind a colon and, unless it runs to the end of the text, closes the brackets
that it opens and none besides; and each ends in front of where the later ones start. -/
theorem objectKeys_disjoint (text : List Char) (start depth : Nat) :
    (∀ e ∈ objectKeys text start depth, InText text start e) ∧
      (objectKeys text start depth).Pairwise fun e later => e.valueEnd < later.valueStart :=
  ⟨(inOrder_objectKeys text start depth).inText, (inOrder_objectKeys text start depth).pairwise⟩

end PlanAudit.Text
