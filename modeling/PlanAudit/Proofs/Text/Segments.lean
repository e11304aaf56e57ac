import PlanAudit.Text.Basic

/-!
# Parts between slashes

A string is put together from the parts between its slashes.  Parts that are neither empty nor hold
a slash are the proper segments of the string with a slash before each of them.

## Main definitions

* `IsSegment`: what can stand between two slashes
* `slashed`: the string with a slash before each part

## Main results

* `isSegment_of_mem_properSegments`: the proper segments of a string can stand between slashes
* `properSegments_slashed`: they are all parts of the string with a slash before each of them
-/

namespace PlanAudit.Text

/-- What can stand between two slashes: something that holds no slash. -/
structure IsSegment (s : String) : Prop where
  ne_empty : s ≠ ""
  not_mem : '/' ∉ s.toList

instance (s : String) : Decidable (IsSegment s) :=
  decidable_of_iff (s ≠ "" ∧ '/' ∉ s.toList) ⟨fun h => ⟨h.1, h.2⟩, fun h => ⟨h.1, h.2⟩⟩

/-- The string with a slash before each part; without parts it is a slash alone. -/
def slashed (parts : List String) : String := "/" ++ "/".intercalate parts

theorem stringBegins_iff {piece s : String} :
    stringBegins piece s = true ↔ piece.toList <+: s.toList := by
  rw [stringBegins, beginsWith, List.isPrefixOf_iff_prefix]

/-- A string that holds a slash is cut at the first one. -/
theorem exists_eq_append_slash {s : String} (h : '/' ∈ s.toList) :
    ∃ front back, s = front ++ "/" ++ back ∧ '/' ∉ front.toList := by
  obtain ⟨front, back, hs, hfront⟩ := List.eq_append_cons_of_mem h
  refine ⟨String.ofList front, String.ofList back, ?_, by rwa [String.toList_ofList]⟩
  rw [← String.toList_inj, hs]
  simp

/-! ## Taking apart -/

theorem not_mem_of_mem_splitOn {α : Type} [BEq α] [LawfulBEq α] {sep : α} {text part : List α}
    (h : part ∈ text.splitOn sep) : sep ∉ part := by
  induction text generalizing part with
  | nil =>
    rw [List.splitOn_nil, List.mem_singleton] at h
    rw [h]
    exact List.not_mem_nil
  | cons x rest ih =>
    rw [List.splitOn_cons_eq_if_modifyHead] at h
    -- A separator opens a new part; anything else goes to the first part of the rest.
    split at h
    · rcases List.mem_cons.mp h with rfl | h
      · exact List.not_mem_nil
      · exact ih h
    · rename_i hx
      cases hparts : rest.splitOn sep with
      | nil => exact absurd hparts (List.splitOn_ne_nil sep rest)
      | cons first others =>
        rw [hparts, List.modifyHead_cons] at h
        rcases List.mem_cons.mp h with rfl | h
        · have hfirst : sep ∉ first := ih (by rw [hparts]; exact List.mem_cons_self)
          simpa [hfirst] using fun hsep : sep = x => hx (by simp [hsep])
        · exact ih (by rw [hparts]; exact List.mem_cons_of_mem first h)

theorem not_mem_of_mem_segments {s part : String} (h : part ∈ segments s) : '/' ∉ part.toList := by
  obtain ⟨chars, hchars, rfl⟩ := List.mem_map.mp h
  rw [String.toList_ofList]
  exact not_mem_of_mem_splitOn hchars

theorem isSegment_of_mem_properSegments {s part : String} (h : part ∈ properSegments s) :
    IsSegment part := by
  obtain ⟨hmem, hne⟩ := List.mem_filter.mp h
  exact ⟨by simpa using hne, not_mem_of_mem_segments hmem⟩

/-! ## Putting together -/

/-- Parts that are joined by a character: the first part, and the others with it in front. -/
theorem intercalate_cons_eq {α : Type} (sep : α) (part : List α) (parts : List (List α)) :
    [sep].intercalate (part :: parts) = part ++ parts.flatMap (sep :: ·) := by
  induction parts generalizing part with
  | nil => simp
  | cons next parts ih => simp [List.intercalate_cons_cons, ih]

/-- What holds of the characters of the parts and of the one between them holds of all. -/
theorem forall_mem_intercalate {α : Type} {P : α → Prop} {sep : α} {parts : List (List α)}
    (hsep : P sep) (hparts : ∀ part ∈ parts, ∀ c ∈ part, P c) :
    ∀ c ∈ [sep].intercalate parts, P c := by
  cases parts with
  | nil => exact nofun
  | cons part parts =>
    obtain ⟨hpart, hparts⟩ := List.forall_mem_cons.mp hparts
    rw [intercalate_cons_eq]
    refine List.forall_mem_append.mpr ⟨hpart, fun c hc => ?_⟩
    obtain ⟨next, hnext, hc⟩ := List.mem_flatMap.mp hc
    rcases List.mem_cons.mp hc with rfl | hc
    · exact hsep
    · exact hparts next hnext c hc

/-- Parts that hold no slash are the parts of what they are joined to. -/
theorem segments_intercalate {parts : List String} (hne : parts ≠ [])
    (h : ∀ s ∈ parts, '/' ∉ s.toList) : segments ("/".intercalate parts) = parts := by
  have hslash : "/".toList = ['/'] := rfl
  have hparts : (['/'].intercalate (parts.map String.toList)).splitOn '/' =
      parts.map String.toList := by
    refine List.splitOn_intercalate '/' (fun part hpart => ?_) (by simpa using hne)
    obtain ⟨s, hs, rfl⟩ := List.mem_map.mp hpart
    exact h s hs
  rw [segments, String.toList_intercalate, hslash, hparts, List.map_map]
  exact List.map_id'' (fun s => String.ofList_toList) parts

/-- A string is what its parts are joined to. -/
theorem intercalate_segments (s : String) : "/".intercalate (segments s) = s := by
  have hslash : "/".toList = ['/'] := rfl
  have hparts : ((s.toList.splitOn '/').map String.ofList).map String.toList =
      s.toList.splitOn '/' := by
    rw [List.map_map]
    exact List.map_id'' (fun _ => String.toList_ofList) _
  rw [← String.toList_inj, String.toList_intercalate, hslash, segments, hparts]
  exact List.intercalate_splitOn '/'

/-- A slash closes the first part. -/
theorem segments_append_slash {front : String} (h : '/' ∉ front.toList) (back : String) :
    segments (front ++ "/" ++ back) = front :: segments back := by
  have hne : segments back ≠ [] := by simp [segments]
  have hback : front ++ "/" ++ back = "/".intercalate (front :: segments back) := by
    rw [String.intercalate_cons_of_ne_nil hne, intercalate_segments]
  rw [hback]
  refine segments_intercalate (List.cons_ne_nil _ _) (List.forall_mem_cons.mpr ⟨h, ?_⟩)
  exact fun part => not_mem_of_mem_segments

/-- A string without a slash is its only part. -/
theorem segments_eq_singleton {s : String} (h : '/' ∉ s.toList) : segments s = [s] := by
  have hs := segments_intercalate (List.cons_ne_nil s []) (List.forall_mem_singleton.mpr h)
  rwa [String.intercalate_singleton] at hs

/-- The string is empty in front of its first slash; what follows are its parts. -/
theorem segments_slashed {parts : List String} (hne : parts ≠ [])
    (h : ∀ s ∈ parts, '/' ∉ s.toList) : segments (slashed parts) = "" :: parts := by
  have hslash : "/".toList = ['/'] := rfl
  have hfirst : segments (slashed parts) = "" :: segments ("/".intercalate parts) := by
    rw [segments, slashed, String.toList_append, hslash, List.singleton_append,
      List.splitOn_cons_eq_if_modifyHead, if_pos (by rfl), List.map_cons]
    rfl
  rw [hfirst, segments_intercalate hne h]

/-- **The parts of a string that has a slash before each of them** are its proper segments. -/
theorem properSegments_slashed {parts : List String} (h : ∀ s ∈ parts, IsSegment s) :
    properSegments (slashed parts) = parts := by
  by_cases hne : parts = []
  · rw [hne]
    decide
  · rw [properSegments, segments_slashed hne fun s hs => (h s hs).not_mem,
      List.filter_cons_of_neg (by decide)]
    exact List.filter_eq_self.mpr fun s hs => by simpa using (h s hs).ne_empty

end PlanAudit.Text
