import PlanAudit.Proofs.Text.KeySpans

/-!
# Keys that are written as they are reported

A key should stand in the text as it is reported, as one run in front of its colon, and the value in
front of it should end where it begins at the latest.  The reader passes over white space while it
collects a key, and it takes the value in front to end as many characters before the colon as the
key has.  So two words in front of a colon are reported as one key, and a key with white space in
front of its colon begins inside the value of the key before it, if no comma stands between them.

## Main definitions

* `StandsAt`: a key stands in the text as one run
* `KeysReal`: all keys do, and no value reaches into the next key
* `KeyWritten`: what is written in front of the colon of an entry
* `EndsApart`: a value ends at a comma or a closing bracket
* `KeysTight`: no key is interrupted by white space, nor set off from its colon without need

## Main results

* `InOrder.link`: how the value in front of a key ends
* `keysReal_iff`: the keys are real exactly if they are tight
* `key_glued_and_swallowed`: two texts whose keys are not
-/

namespace PlanAudit.Text

/-- The key of the entry stands at `first` as one run, with nothing but white space between it and
the colon in front of the value. -/
def StandsAt (text : List Char) (e : ObjectKey) (first : Nat) : Prop :=
  ∃ front gap rest, text = front ++ (e.key.toList ++ (gap ++ ':' :: rest)) ∧
    front.length = first ∧ (∀ c ∈ gap, isBlank c = true) ∧
    e.valueStart = first + e.key.toList.length + gap.length + 1

/-- Each key stands in the text as it is reported, and the value of the entry before it ends at its
first character at the latest. -/
structure KeysReal (text : List Char) (es : List ObjectKey) : Prop where
  real : ∀ e ∈ es, ∃ first, StandsAt text e first
  apart : ∀ e next, [e, next] <:+: es → ∃ first, StandsAt text next first ∧ e.valueEnd ≤ first

/-- What is written in front of the colon of the entry from the first character of its key on. -/
def KeyWritten (text : List Char) (e : ObjectKey) (written : List Char) : Prop :=
  ∃ front rest, text = front ++ (written ++ ':' :: rest) ∧ SpellsKey e.key.toList written ∧
    e.valueStart = front.length + written.length + 1

/-- A comma or a closing bracket stands at the end of the value. -/
def EndsApart (text : List Char) (e : ObjectKey) : Prop :=
  ∃ c, text[e.valueEnd]? = some c ∧ isSeparator c = true

/-- White space in a key is followed by white space only, and a key that follows a value without a
comma or a closing bracket stands directly in front of its colon. -/
structure KeysTight (text : List Char) (es : List ObjectKey) : Prop where
  whole : ∀ e ∈ es, ∃ written, KeyWritten text e written ∧
    written.Pairwise fun c d => isBlank c = true → isBlank d = true
  close : ∀ e next, [e, next] <:+: es →
    EndsApart text e ∨ ∃ written, KeyWritten text next written ∧ ∀ c ∈ written, isBlank c = false

/-! ## What is written of a key -/

section Written

variable {key w : List Char}

theorem SpellsKey.not_blank (h : SpellsKey key w) : ∀ c ∈ key, isBlank c = false := by
  intro c hc
  rw [← h.kept] at hc
  simpa using List.of_mem_filter hc

theorem SpellsKey.length_key_pos (h : SpellsKey key w) : 0 < key.length := by
  have hkept := h.kept
  obtain ⟨c, rest, rfl, hc⟩ := h.head
  rw [← hkept, List.filter_cons_of_pos (by simp [hc])]
  exact Nat.succ_pos _

theorem filter_not_blank_of_blank {gap : List Char} (hgap : ∀ c ∈ gap, isBlank c = true) :
    gap.filter (fun c => !isBlank c) = [] :=
  List.filter_eq_nil_iff.mpr fun c hc => by simp [hgap c hc]

theorem filter_not_blank_of_not_blank (hkey : ∀ c ∈ key, isBlank c = false) :
    key.filter (fun c => !isBlank c) = key :=
  List.filter_eq_self.mpr fun c hc => by simp [hkey c hc]

theorem filter_name_append_gap {gap : List Char} (hkey : ∀ c ∈ key, isBlank c = false)
    (hgap : ∀ c ∈ gap, isBlank c = true) : (key ++ gap).filter (fun c => !isBlank c) = key := by
  rw [List.filter_append, filter_not_blank_of_not_blank hkey, filter_not_blank_of_blank hgap,
    List.append_nil]

/-- A text that begins with another character than white space does not hold less white space than
its end. -/
theorem eq_nil_of_filter_eq {z v : List Char} (hhead : ∃ c rest, z ++ v = c :: rest ∧
    isBlank c = false) (hkept : (z ++ v).filter (fun c => !isBlank c) =
      v.filter fun c => !isBlank c) : z = [] := by
  rw [List.filter_append] at hkept
  have hz := List.filter_eq_nil_iff.mp (List.append_left_eq_self.mp hkept)
  cases z with
  | nil => rfl
  | cons x z =>
    obtain ⟨c, rest, hsplit, hc⟩ := hhead
    obtain ⟨rfl, -⟩ := List.cons.inj hsplit
    exact absurd (hz x List.mem_cons_self) (by simp [hc])

/-- A key that stands in the text as one run is what is written of it, with the white space behind
it. -/
theorem eq_of_spellsKey {front front' gap : List Char} (h : SpellsKey key w)
    (hgap : ∀ c ∈ gap, isBlank c = true) (hsplit : front ++ (key ++ gap) = front' ++ w) :
    front = front' ∧ key ++ gap = w := by
  have hkept : (key ++ gap).filter (fun c => !isBlank c) = w.filter fun c => !isBlank c := by
    rw [filter_name_append_gap h.not_blank hgap, h.kept]
  have hhead : ∃ c rest, key ++ gap = c :: rest ∧ isBlank c = false := by
    obtain ⟨c, rest, rfl⟩ := List.exists_cons_of_length_pos h.length_key_pos
    exact ⟨c, rest ++ gap, rfl, h.not_blank c List.mem_cons_self⟩
  rcases List.append_eq_append_iff.mp hsplit with ⟨z, rfl, hz⟩ | ⟨z, rfl, hz⟩
  · obtain rfl := eq_nil_of_filter_eq (hz ▸ hhead) (hz ▸ hkept)
    exact ⟨(List.append_nil front).symm, hz⟩
  · obtain rfl := eq_nil_of_filter_eq (hz ▸ h.head) (hz ▸ hkept.symm)
    exact ⟨List.append_nil front', hz.symm⟩

/-- What is written of a key without white space inside is the key, and white space behind it. -/
theorem exists_eq_append_gap (h : SpellsKey key w)
    (hwhole : w.Pairwise fun c d => isBlank c = true → isBlank d = true) :
    ∃ gap, w = key ++ gap ∧ ∀ c ∈ gap, isBlank c = true := by
  have hsplit := List.takeWhile_append_dropWhile (p := fun c => !isBlank c) (l := w)
  have hname : ∀ c ∈ w.takeWhile (fun c => !isBlank c), isBlank c = false := fun c hc => by
    simpa using List.mem_takeWhile_imp hc
  have hgap : ∀ c ∈ w.dropWhile (fun c => !isBlank c), isBlank c = true := by
    have hbehind := hwhole.sublist (List.dropWhile_sublist (fun c => !isBlank c))
    have hfirst := List.head?_dropWhile_not (fun c => !isBlank c) w
    cases hdrop : w.dropWhile (fun c => !isBlank c) with
    | nil => exact nofun
    | cons x rest =>
      rw [hdrop] at hbehind hfirst
      have hx : isBlank x = true := by simpa using hfirst
      exact List.forall_mem_cons.mpr ⟨hx, fun c hc =>
        (List.pairwise_cons.mp hbehind).1 c hc hx⟩
  refine ⟨_, ?_, hgap⟩
  rw [← h.kept, ← hsplit, filter_name_append_gap hname hgap]
  simp [hsplit]

theorem pairwise_name_append_gap {gap : List Char} (hkey : ∀ c ∈ key, isBlank c = false)
    (hgap : ∀ c ∈ gap, isBlank c = true) :
    (key ++ gap).Pairwise fun c d => isBlank c = true → isBlank d = true := by
  have hno {c d : Char} (hc : isBlank c = false) : isBlank c = true → isBlank d = true :=
    fun hblank => absurd (hc.symm.trans hblank) Bool.false_ne_true
  refine List.pairwise_append.mpr ⟨?_, ?_, fun c hc d hd _ => hgap d hd⟩
  · exact List.pairwise_of_forall_mem_list fun c hc d _ => hno (hkey c hc)
  · exact List.pairwise_of_forall_mem_list fun c _ d hd _ => hgap d hd

end Written

/-! ## Keys and the values in front of them -/

theorem Placed.keyWritten {text front written value rest : List Char} {e : ObjectKey}
    (h : Placed text e front written value rest) : KeyWritten text e written :=
  ⟨front, value ++ rest, h.split, h.key, h.starts⟩

/-- A key that stands as one run in front of the colon of an entry stands at the front of what is
written there. -/
theorem Placed.eq_of_standsAt {text front written value rest : List Char} {e : ObjectKey}
    {first : Nat} (h : Placed text e front written value rest) (hfirst : StandsAt text e first) :
    first = front.length ∧
      ∃ gap, written = e.key.toList ++ gap ∧ ∀ c ∈ gap, isBlank c = true := by
  obtain ⟨front', gap, rest', hsplit, rfl, hgap, hstarts⟩ := hfirst
  have hsame : (front' ++ (e.key.toList ++ gap)) ++ ':' :: rest' =
      (front ++ written) ++ ':' :: (value ++ rest) := by
    rw [List.append_assoc front written, ← h.split, hsplit]
    simp
  have hlength : (front' ++ (e.key.toList ++ gap)).length = (front ++ written).length := by
    have hcolon := h.starts
    simp only [List.length_append]
    omega
  obtain ⟨rfl, hwritten⟩ := eq_of_spellsKey h.key hgap (List.append_inj_left hsame hlength)
  exact ⟨rfl, gap, hwritten.symm, hgap⟩

theorem KeyWritten.exists_standsAt {text written : List Char} {e : ObjectKey}
    (h : KeyWritten text e written)
    (hwhole : written.Pairwise fun c d => isBlank c = true → isBlank d = true) :
    ∃ first, StandsAt text e first := by
  obtain ⟨front, rest, hsplit, hspells, hstarts⟩ := h
  obtain ⟨gap, rfl, hgap⟩ := exists_eq_append_gap hspells hwhole
  refine ⟨front.length, front, gap, rest, by rw [hsplit]; simp, rfl, hgap, ?_⟩
  rw [hstarts, List.length_append]
  omega

/-- Without white space in it the key stands directly in front of its colon. -/
theorem KeyWritten.exists_standsAt_of_not_blank {text written : List Char} {e : ObjectKey}
    (h : KeyWritten text e written) (hfree : ∀ c ∈ written, isBlank c = false) :
    ∃ first, StandsAt text e first ∧ e.valueStart = first + e.key.toList.length + 1 := by
  obtain ⟨front, rest, hsplit, hspells, hstarts⟩ := h
  have hkey : e.key.toList = written := by
    rw [← hspells.kept, filter_not_blank_of_not_blank hfree]
  rw [← hkey] at hsplit hstarts
  exact ⟨front.length, ⟨front, [], rest, hsplit, rfl, nofun, hstarts⟩, hstarts⟩

/-- What spells a key holds no separator. -/
theorem SpellsKey.not_separator {key w : List Char} (h : SpellsKey key w) :
    ∀ c ∈ w, isSeparator c = false := by
  intro c hc
  have hcloser : isCloser c = false := by
    have hstep := h.bracketStep_eq_zero c hc
    rcases bracketStep_cases c with ⟨-, hone⟩ | ⟨-, -, hone⟩ | ⟨-, hcloser, -⟩
    · omega
    · omega
    · exact hcloser
  have hcomma : c ≠ ',' := by
    rintro rfl
    rcases h.chars ',' hc with hkey | ⟨hblank, -⟩
    · exact absurd hkey (by decide)
    · exact absurd hblank (by decide)
  simp [isSeparator, hcloser, hcomma]

/-- The value in front of a separator ends apart from what follows. -/
theorem Placed.endsApart {text front written value rest : List Char} {e : ObjectKey} {c : Char}
    (h : Placed text e front written value (c :: rest)) (hc : isSeparator c = true) :
    EndsApart text e := by
  obtain ⟨head, hsplit, hhead⟩ := h.exists_head
  refine ⟨c, ?_, hc⟩
  rw [h.ends, hhead, ← List.length_append, hsplit, ← List.append_assoc,
    List.getElem?_append_right (Nat.le_refl _), Nat.sub_self]
  rfl

/-- No separator stands as many characters in front of the colon as the key has: these characters
all belong to what is written of the key. -/
theorem Placed.not_separator {text front written value rest : List Char} {e : ObjectKey}
    (h : Placed text e front written value rest) {stop : Nat}
    (hstop : stop + e.key.toList.length + 1 = e.valueStart) {c : Char}
    (hc : text[stop]? = some c) : isSeparator c = false := by
  have hstarts := h.starts
  have hlong := h.key.length_le
  have hkey := h.key.length_key_pos
  rw [h.split, List.getElem?_append_right (by omega), List.getElem?_append_left (by omega)] at hc
  exact h.key.not_separator c (List.mem_of_getElem? hc)

/-- **How the value in front of a key ends**: at a comma or a closing bracket in front of what is
written of the key, or in what is written of it, as many characters in front of the colon as the key
has. -/
theorem InOrder.link {text : List Char} {lo : Nat} {es : List ObjectKey} (h : InOrder text lo es) :
    ∀ e next, [e, next] <:+: es → ∃ front written value rest,
      Placed text next front written value rest ∧
        (EndsApart text e ∧ e.valueEnd < front.length ∨
          ¬EndsApart text e ∧ e.valueEnd + next.key.toList.length + 1 = next.valueStart) := by
  induction h with
  | nil => exact fun e next hpair => absurd (List.infix_nil.mp hpair) (List.cons_ne_nil e [next])
  | last he hlo => exact fun e next hpair => absurd hpair.length_le (by simp)
  | ended he hlo hc hes ih =>
    intro e next hpair
    rcases List.infix_cons_iff.mp hpair with hfirst | hlater
    · obtain ⟨rfl, hnext⟩ := List.cons_prefix_cons.mp hfirst
      obtain ⟨front, written, value, rest, hplaced, hle⟩ :=
        hes.exists_placed next (hnext.subset List.mem_cons_self)
      exact ⟨front, written, value, rest, hplaced, .inl ⟨he.endsApart hc, hle⟩⟩
    · exact ih e next hlater
  | joined he hlo hjoined hes ih =>
    intro e next hpair
    rcases List.infix_cons_iff.mp hpair with hfirst | hlater
    · obtain ⟨rfl, hrest⟩ := List.cons_prefix_cons.mp hfirst
      obtain ⟨rfl, -⟩ := List.cons_prefix_cons.mp hrest
      obtain ⟨front, written, value, rest, hplaced, -⟩ :=
        hes.exists_placed next List.mem_cons_self
      refine ⟨front, written, value, rest, hplaced, .inr ⟨?_, hjoined⟩⟩
      rintro ⟨c, hstop, hc⟩
      rw [hplaced.not_separator hjoined hstop] at hc
      cases hc
    · exact ih e next hlater

/-- **Each key stands in the text as it is reported, and no value reaches into the next one, exactly
if no key is interrupted by white space and none that follows a value without a comma or a closing
bracket has white space in front of its colon.** -/
theorem keysReal_iff (text : List Char) (start depth : Nat) :
    KeysReal text (objectKeys text start depth) ↔
      KeysTight text (objectKeys text start depth) := by
  have horder := inOrder_objectKeys text start depth
  constructor
  · intro h
    refine ⟨fun e he => ?_, fun e next hpair => ?_⟩
    · obtain ⟨front, written, value, rest, hplaced, -⟩ := horder.exists_placed e he
      obtain ⟨first, hfirst⟩ := h.real e he
      obtain ⟨-, gap, rfl, hgap⟩ := hplaced.eq_of_standsAt hfirst
      exact ⟨_, hplaced.keyWritten, pairwise_name_append_gap hplaced.key.not_blank hgap⟩
    · obtain ⟨front, written, value, rest, hplaced, hlink⟩ := horder.link e next hpair
      obtain ⟨first, hfirst, hle⟩ := h.apart e next hpair
      obtain ⟨rfl, gap, rfl, hgap⟩ := hplaced.eq_of_standsAt hfirst
      refine hlink.imp And.left fun ⟨_, hjoined⟩ => ⟨_, hplaced.keyWritten, ?_⟩
      -- There is no room for white space between the end of the value and the colon.
      have hstarts := hplaced.starts
      rw [List.length_append] at hstarts
      obtain rfl : gap = [] := List.eq_nil_of_length_eq_zero (by omega)
      rw [List.append_nil]
      exact hplaced.key.not_blank
  · intro h
    have hreal : ∀ e ∈ objectKeys text start depth, ∃ first, StandsAt text e first := by
      intro e he
      obtain ⟨written, hwritten, hwhole⟩ := h.whole e he
      exact hwritten.exists_standsAt hwhole
    refine ⟨hreal, fun e next hpair => ?_⟩
    obtain ⟨front, written, value, rest, hplaced, hlink⟩ := horder.link e next hpair
    rcases hlink with ⟨-, hbefore⟩ | ⟨hjoined, hends⟩
    · obtain ⟨first, hfirst⟩ := hreal next (hpair.subset (by simp))
      obtain ⟨rfl, -⟩ := hplaced.eq_of_standsAt hfirst
      exact ⟨_, hfirst, hbefore.le⟩
    · obtain ⟨written', hwritten, hfree⟩ := (h.close e next hpair).resolve_left hjoined
      obtain ⟨first, hfirst, hstarts⟩ := hwritten.exists_standsAt_of_not_blank hfree
      exact ⟨first, hfirst, by omega⟩

theorem StandsAt.infix {text : List Char} {e : ObjectKey} {first : Nat}
    (h : StandsAt text e first) : e.key.toList <:+: text := by
  obtain ⟨front, gap, rest, rfl, -⟩ := h
  exact ⟨front, gap ++ ':' :: rest, List.append_assoc _ _ _⟩

theorem StandsAt.lt_start {text : List Char} {e : ObjectKey} {first : Nat}
    (h : StandsAt text e first) : first + e.key.toList.length < e.valueStart := by
  obtain ⟨front, gap, rest, -, -, -, hstarts⟩ := h
  omega

theorem StandsAt.getElem? {text : List Char} {e : ObjectKey} {first : Nat}
    (h : StandsAt text e first) {c : Char} (hc : c ∈ e.key.toList.head?) :
    text[first]? = some c := by
  obtain ⟨front, gap, rest, rfl, rfl, -⟩ := h
  obtain ⟨key, hkey⟩ := List.head?_eq_some_iff.mp hc
  rw [List.getElem?_append_right (Nat.le_refl _), Nat.sub_self, hkey]
  rfl

/-- **Two words in front of a colon are reported as one key**, which stands nowhere in the text; and
**a value takes in the next key** if white space stands in front of the colon of that key and no
comma in front of the key. -/
theorem key_glued_and_swallowed :
    objectKeys "a b: 1".toList 0 0 = [⟨"ab", 4, 6⟩] ∧
      ¬KeysReal "a b: 1".toList (objectKeys "a b: 1".toList 0 0) ∧
      objectKeys "a: 1\nb : 2".toList 0 0 = [⟨"a", 2, 6⟩, ⟨"b", 8, 10⟩] ∧
      ¬KeysReal "a: 1\nb : 2".toList (objectKeys "a: 1\nb : 2".toList 0 0) := by
  have hglued : objectKeys "a b: 1".toList 0 0 = [⟨"ab", 4, 6⟩] := by decide +kernel
  have hswallowed : objectKeys "a: 1\nb : 2".toList 0 0 = [⟨"a", 2, 6⟩, ⟨"b", 8, 10⟩] := by
    decide +kernel
  refine ⟨hglued, fun h => ?_, hswallowed, fun h => ?_⟩
  · rw [hglued] at h
    obtain ⟨first, hfirst⟩ := h.real _ List.mem_cons_self
    exact absurd hfirst.infix (by decide +kernel)
  · rw [hswallowed] at h
    obtain ⟨first, hfirst, hle⟩ := h.apart _ _ (List.infix_refl _)
    -- The value ends where the key would have to begin, and a space stands there.
    have hstart : 6 ≤ first := hle
    have hcolon : first + 1 < 8 := hfirst.lt_start
    obtain rfl : first = 6 := by omega
    exact absurd (hfirst.getElem? rfl) (by decide)

end PlanAudit.Text
