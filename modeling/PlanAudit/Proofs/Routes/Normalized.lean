import Mathlib.Data.List.DropRight
import PlanAudit.Proofs.Text.Segments
import PlanAudit.Proofs.Text.Words
import PlanAudit.Routes.CallRouter

/-!
# Normalised paths

A path that starts with a slash, or is empty, is normalised to its proper segments with a slash
before each of them.  So two such paths are normalised to the same if they have the same proper
segments, and those of two paths one after the other are those of both.

Whatever a path starts with, a normalised one has neither a repeated nor a trailing slash, and paths
of this kind are those that normalising leaves as they are.

## Main definitions

* `Rooted`: what starts with a slash, if it is not empty
* `IsNormal`: a path without repeated and trailing slashes

## Main results

* `normalizePath_eq_self_iff`: the paths that normalising leaves as they are
* `normalizePath_eq_slashed`: the normalised path is put together from the proper segments
* `properSegments_append`: the proper segments of two paths one after the other
* `normalizePath_append_eq_iff`: when two paths are normalised to the same
-/

namespace PlanAudit.Routes

open Text

/-- What starts with a slash, if it is not empty. -/
def Rooted (s : String) : Prop := ∀ c ∈ s.toList.head?, c = '/'

theorem rooted_empty : Rooted "" := nofun

theorem Rooted.eq_empty_or_cons {s : String} (h : Rooted s) :
    s = "" ∨ ∃ rest, s.toList = '/' :: rest := by
  cases hs : s.toList with
  | nil => exact Or.inl (String.toList_eq_nil_iff.mp hs)
  | cons c rest =>
    have hc : c = '/' := h c (by rw [hs]; exact rfl)
    exact Or.inr ⟨rest, by rw [hc]⟩

theorem Rooted.append {a b : String} (ha : Rooted a) (hb : Rooted b) : Rooted (a ++ b) := by
  rcases ha.eq_empty_or_cons with rfl | ⟨rest, ha⟩
  · rwa [String.empty_append]
  · intro c hc
    rw [String.toList_append, ha] at hc
    exact (Option.some.inj hc).symm

/-! ## Runs of slashes -/

section Squeeze

variable {w l : List Char}

theorem squeezeSlashes_append (h : '/' ∉ w) : squeezeSlashes (w ++ l) = w ++ squeezeSlashes l := by
  induction w with
  | nil => rfl
  | cons c w ih =>
    obtain ⟨hc, hw⟩ := not_or.mp (mt List.mem_cons.mpr h)
    have hstep : squeezeSlashes (c :: (w ++ l)) = c :: squeezeSlashes (w ++ l) := by
      rw [squeezeSlashes]
      rintro rest rfl -
      exact hc rfl
    rw [List.cons_append, hstep, ih hw, List.cons_append]

/-- A slash in front of something else stays. -/
theorem squeezeSlashes_slash_append (hne : w ≠ []) (h : '/' ∉ w) :
    squeezeSlashes ('/' :: (w ++ l)) = '/' :: w ++ squeezeSlashes l := by
  obtain ⟨c, w', rfl⟩ := List.exists_cons_of_ne_nil hne
  have hstep : squeezeSlashes ('/' :: (c :: w' ++ l)) =
      '/' :: squeezeSlashes (c :: w' ++ l) := by
    rw [squeezeSlashes]
    rintro rest - heq
    obtain rfl := (List.cons.inj heq).1
    exact h List.mem_cons_self
  rw [hstep, squeezeSlashes_append h]
  rfl

/-- The parts of a text that starts with a slash are left with a slash before each of them, but for
those that are empty. -/
theorem dropEndWhile_squeezeSlashes {parts : List (List Char)} (hne : parts ≠ [])
    (h : ∀ part ∈ parts, '/' ∉ part) :
    dropEndWhile (· == '/') (squeezeSlashes ('/' :: ['/'].intercalate parts)) =
      (parts.filter (· != [])).flatMap ('/' :: ·) := by
  induction parts with
  | nil => exact absurd rfl hne
  | cons part rest ih =>
    obtain ⟨hpart, hrest⟩ := List.forall_mem_cons.mp h
    have hlast : part ≠ [] → ∀ c ∈ ('/' :: part).getLast?, (c == '/') = false := by
      intro hpne c hc
      rw [List.getLast?_cons_of_ne_nil hpne] at hc
      rw [beq_eq_false_iff_ne]
      rintro rfl
      exact hpart (List.mem_of_getLast? hc)
    -- What follows the first part is nothing, or a slash and the other parts.
    obtain ⟨behind, htext, hbehind⟩ : ∃ behind,
        ['/'].intercalate (part :: rest) = part ++ behind ∧
        dropEndWhile (· == '/') (squeezeSlashes behind) =
          (rest.filter (· != [])).flatMap ('/' :: ·) ∧
        (part = [] → dropEndWhile (· == '/') (squeezeSlashes ('/' :: behind)) =
          (rest.filter (· != [])).flatMap ('/' :: ·)) := by
      cases rest with
      | nil => exact ⟨[], by simp, rfl, fun _ => rfl⟩
      | cons next others =>
        refine ⟨'/' :: ['/'].intercalate (next :: others), ?_, ih (List.cons_ne_nil _ _) hrest,
          fun _ => ?_⟩
        · rw [List.intercalate_cons_cons]
          simp
        · rw [squeezeSlashes]
          exact ih (List.cons_ne_nil _ _) hrest
    rw [htext]
    by_cases hempty : part = []
    · subst hempty
      rw [List.nil_append, hbehind.2 rfl, List.filter_cons_of_neg (by simp)]
    · rw [squeezeSlashes_slash_append hempty hpart, dropEndWhile_append (hlast hempty),
        hbehind.1, List.filter_cons_of_pos (by simpa using hempty), List.flatMap_cons]

/-- Where the text starts with a slash, so does what is left of it. -/
theorem head?_squeezeSlashes (l : List Char) : (squeezeSlashes l).head? = l.head? := by
  fun_induction squeezeSlashes l with
  | case1 rest ih => exact ih
  | case2 c rest hc ih => rfl
  | case3 => rfl

theorem squeezeSlashes_eq_self (h : ¬ ['/', '/'] <:+: l) : squeezeSlashes l = l := by
  fun_induction squeezeSlashes l with
  | case1 rest ih => exact absurd ⟨[], rest, rfl⟩ h
  | case2 c rest hc ih => rw [ih fun hrest => h (hrest.trans (List.suffix_cons c rest).isInfix)]
  | case3 => rfl

/-- No two slashes follow each other in what is left. -/
theorem not_infix_squeezeSlashes (l : List Char) : ¬ ['/', '/'] <:+: squeezeSlashes l := by
  fun_induction squeezeSlashes l with
  | case1 rest ih => exact ih
  | case2 c rest hc ih =>
    rw [List.infix_cons_iff, not_or]
    refine ⟨fun hfront => ?_, ih⟩
    -- The second slash would stand at the front of the rest, and the first would have been left
    -- out.
    obtain ⟨rfl, hsecond⟩ := List.cons_prefix_cons.mp hfront
    have hhead := head?_squeezeSlashes rest
    obtain ⟨t, ht⟩ := hsecond
    rw [← ht] at hhead
    obtain ⟨y, others, rfl⟩ : ∃ y others, rest = y :: others :=
      List.exists_cons_of_ne_nil fun hnil => by simp [hnil] at hhead
    exact hc others rfl (by rw [Option.some.inj hhead])
  | case3 => simp

end Squeeze

/-! ## Paths without repeated and trailing slashes -/

/-- No two slashes follow each other in the path, and it ends in one only if it is nothing else. -/
structure IsNormal (url : String) : Prop where
  ne_empty : url ≠ ""
  single : ¬ ['/', '/'] <:+: url.toList
  trailing : url.toList.getLast? = some '/' → url = "/"

theorem isNormal_normalizePath (url : String) : IsNormal (normalizePath url) := by
  have hroot : IsNormal "/" := ⟨by decide, by decide, fun _ => rfl⟩
  have hdrop (w : List Char) : dropEndWhile (· == '/') w = w.rdropWhile (· == '/') := rfl
  unfold normalizePath
  rw [hdrop]
  dsimp only
  split
  · exact hroot
  · rename_i hne
    have hne : (squeezeSlashes url.toList).rdropWhile (· == '/') ≠ [] := by simpa using hne
    refine ⟨by simpa using hne, fun h => ?_, fun h => ?_⟩
    · rw [String.toList_ofList] at h
      exact not_infix_squeezeSlashes _ (h.trans (List.rdropWhile_prefix _ _).isInfix)
    · have hlast := List.rdropWhile_last_not _ _ hne
      rw [String.toList_ofList, List.getLast?_eq_some_getLast hne] at h
      exact absurd (beq_iff_eq.mpr (Option.some.inj h)) hlast

theorem IsNormal.normalizePath_eq {url : String} (h : IsNormal url) : normalizePath url = url := by
  by_cases hroot : url = "/"
  · subst hroot
    decide
  · have hkept : url.toList.rdropWhile (· == '/') = url.toList :=
      List.rdropWhile_eq_self_iff.mpr fun hne hlast => hroot (h.trailing (by
        rw [List.getLast?_eq_some_getLast hne, beq_iff_eq.mp hlast]))
    have hpath : dropEndWhile (· == '/') (squeezeSlashes url.toList) = url.toList := by
      rw [squeezeSlashes_eq_self h.single]
      exact hkept
    unfold normalizePath
    rw [hpath, if_neg (by simpa using h.ne_empty), String.ofList_toList]

/-- **The paths that normalising leaves as they are.** -/
theorem normalizePath_eq_self_iff {url : String} : normalizePath url = url ↔ IsNormal url :=
  ⟨fun h => h ▸ isNormal_normalizePath url, IsNormal.normalizePath_eq⟩

theorem normalizePath_normalizePath (url : String) :
    normalizePath (normalizePath url) = normalizePath url :=
  (isNormal_normalizePath url).normalizePath_eq

/-! ## Normalised paths -/

/-- The characters of a string that has a slash before each of its parts. -/
theorem toList_slashed {parts : List String} (hne : parts ≠ []) :
    (slashed parts).toList = parts.flatMap fun s => '/' :: s.toList := by
  have hslash : "/".toList = ['/'] := rfl
  obtain ⟨s, rest, rfl⟩ := List.exists_cons_of_ne_nil hne
  rw [slashed, String.toList_append, String.toList_intercalate, hslash, List.map_cons,
    intercalate_cons_eq, List.flatMap_map]
  rfl

theorem properSegments_of_toList {s : String} {rest : List Char} (h : s.toList = '/' :: rest) :
    properSegments s = ((rest.splitOn '/').filter (· != [])).map String.ofList := by
  have hsegments : segments s = "" :: (rest.splitOn '/').map String.ofList := by
    rw [segments, h, List.splitOn_cons_eq_if_modifyHead, if_pos (by rfl), List.map_cons,
      String.ofList_nil]
  have hproper : (fun s : String => s != "") ∘ String.ofList = fun part => part != [] := by
    funext part
    rw [Function.comp_apply, Bool.eq_iff_iff, bne_iff_ne, bne_iff_ne, ne_eq,
      String.ofList_eq_empty_iff]
  rw [properSegments, hsegments, List.filter_cons_of_neg (by decide), List.filter_map, hproper]

/-- **A normalised path is put together from its proper segments.** -/
theorem normalizePath_eq_slashed {s : String} (h : Rooted s) :
    normalizePath s = slashed (properSegments s) := by
  rcases h.eq_empty_or_cons with rfl | ⟨rest, hs⟩
  · decide
  · have hparts := dropEndWhile_squeezeSlashes (List.splitOn_ne_nil '/' rest)
      fun part => not_mem_of_mem_splitOn
    rw [List.intercalate_splitOn] at hparts
    unfold normalizePath
    simp only [hs, hparts]
    rw [properSegments_of_toList hs]
    cases hproper : (rest.splitOn '/').filter (· != []) with
    | nil => decide
    | cons part others =>
      have hne : (part :: others).map String.ofList ≠ [] := by simp
      rw [if_neg (by simp), ← String.toList_inj, String.toList_ofList, toList_slashed hne,
        List.flatMap_map]
      simp only [String.toList_ofList]

theorem properSegments_append {a b : String} (hb : Rooted b) :
    properSegments (a ++ b) = properSegments a ++ properSegments b := by
  rcases hb.eq_empty_or_cons with rfl | ⟨rest, hb⟩
  · have hempty : properSegments "" = [] := by decide
    rw [String.append_empty, hempty, List.append_nil]
  · have hsegments : segments (a ++ b) = segments a ++ (rest.splitOn '/').map String.ofList := by
      rw [segments, String.toList_append, hb, List.splitOn_append_cons_self, List.map_append]
      rfl
    have hb' : properSegments b = ((rest.splitOn '/').map String.ofList).filter (· != "") := by
      rw [properSegments, segments, hb, List.splitOn_cons_eq_if_modifyHead, if_pos (by rfl),
        List.map_cons, List.filter_cons_of_neg (by decide)]
    rw [properSegments, hsegments, List.filter_append, hb']
    rfl

theorem slashed_inj {parts parts' : List String} (h : ∀ s ∈ parts, IsSegment s)
    (h' : ∀ s ∈ parts', IsSegment s) : slashed parts = slashed parts' ↔ parts = parts' := by
  refine ⟨fun heq => ?_, congrArg slashed⟩
  rw [← properSegments_slashed h, heq, properSegments_slashed h']

/-- **When two paths are normalised to the same**, each given as one path behind another. -/
theorem normalizePath_append_eq_iff {a b c d : String} (ha : Rooted a) (hb : Rooted b)
    (hc : Rooted c) (hd : Rooted d) :
    normalizePath (a ++ b) = normalizePath (c ++ d) ↔
      properSegments a ++ properSegments b = properSegments c ++ properSegments d := by
  rw [normalizePath_eq_slashed (ha.append hb), normalizePath_eq_slashed (hc.append hd),
    slashed_inj (fun _ => isSegment_of_mem_properSegments) fun _ => isSegment_of_mem_properSegments,
    properSegments_append hb, properSegments_append hd]

end PlanAudit.Routes
