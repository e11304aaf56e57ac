import Mathlib.Data.List.Nodup
import PlanAudit.Paths.Nearby
import PlanAudit.Proofs.Plan.Lines
import PlanAudit.Proofs.Text.FirstPerKey

/-!
# The files that resemble a path most

Files are ranked by a score that may be negative, and the order of the tree decides between equal
scores.  Ranking all files with a positive score and cutting the list off leaves out only files that
rank behind all that are listed.

## Main definitions

* `ranked`: the elements of a list with a positive score, the higher scores first
* `IsTop`: a list holds the elements that rank first
* `score`: how much a file resembles a path, overlap by overlap

## Main results

* `filter_byScore`: sorting by a score keeps the order of those with the same score
* `isTop_ranked`: a ranking that is cut off holds the elements that rank first
* `resemblance_eq_score`: the score is the one that files are ranked by
* `isTop_closestPaths`: the files that are listed are those that rank first
-/

namespace PlanAudit.Paths

open PlanAudit.Text

/-! ## Sorting by a score -/

section Sorting

variable {α : Type} (score : α → Int)

/-- Whether the first element may stand in front of the second. -/
def scoresAtLeast (a b : α) : Bool := decide (score b ≤ score a)

/-- The elements with higher scores first. -/
def byScore (l : List α) : List α := l.mergeSort (scoresAtLeast score)

variable {score}

theorem scoresAtLeast_trans (a b c : α) (hab : scoresAtLeast score a b = true)
    (hbc : scoresAtLeast score b c = true) : scoresAtLeast score a c = true :=
  decide_eq_true (Int.le_trans (of_decide_eq_true hbc) (of_decide_eq_true hab))

theorem scoresAtLeast_total (a b : α) :
    (scoresAtLeast score a b || scoresAtLeast score b a) = true := by
  rw [Bool.or_eq_true, scoresAtLeast, scoresAtLeast, decide_eq_true_iff, decide_eq_true_iff]
  exact Int.le_total (score b) (score a)

theorem pairwise_byScore (l : List α) :
    (byScore score l).Pairwise fun a b => score b ≤ score a :=
  (List.pairwise_mergeSort scoresAtLeast_trans scoresAtLeast_total l).imp of_decide_eq_true

/-- **Sorting by a score keeps the order of those with the same score.** -/
theorem filter_byScore (l : List α) (n : Int) :
    (byScore score l).filter (score · = n) = l.filter (score · = n) := by
  have hsame : (l.filter (score · = n)).Pairwise fun a b => scoresAtLeast score a b = true := by
    refine List.pairwise_of_forall_mem_list fun a ha b hb => decide_eq_true (Int.le_of_eq ?_)
    have hscore {c : α} (hc : c ∈ l.filter (score · = n)) : score c = n :=
      of_decide_eq_true (List.mem_filter.mp hc).2
    exact (hscore hb).trans (hscore ha).symm
  -- Those with the score stay a sublist, and there are as many of them as before.
  have hkept := (List.sublist_mergeSort scoresAtLeast_trans scoresAtLeast_total hsame
    List.filter_sublist).filter (score · = n)
  simp only [List.filter_filter, Bool.and_self] at hkept
  exact (hkept.eq_of_length ((List.mergeSort_perm l _).filter _).length_eq.symm).symm

end Sorting

/-! ## Rankings -/

section Ranking

variable {α : Type} (score : α → Int)

/-- The elements with a positive score, the higher scores first. -/
def ranked (all : List α) : List α := byScore score (all.filter fun a => 0 < score a)

theorem mem_ranked_iff {all : List α} {a : α} : a ∈ ranked score all ↔ a ∈ all ∧ 0 < score a := by
  simp [ranked, byScore]

variable [DecidableEq α]

/-- Of two elements of a list the first has the higher score, or the same one and an earlier
position. -/
def Precedes (all : List α) (a b : α) : Prop :=
  score b < score a ∨ score b = score a ∧ all.idxOf a < all.idxOf b

/-- The chosen elements are the first `limit` ones with a positive score, in the order of their
ranks. -/
structure IsTop (limit : Nat) (all chosen : List α) : Prop where
  length_le : chosen.length ≤ limit
  nodup : chosen.Nodup
  listed : ∀ a ∈ chosen, a ∈ all
  positive : ∀ a ∈ chosen, 0 < score a
  ordered : chosen.Pairwise (Precedes score all)
  left_out : ∀ a ∈ all, a ∉ chosen →
    score a ≤ 0 ∨ chosen.length = limit ∧ ∀ b ∈ chosen, Precedes score all b a

/-- The positions of a list without repetition grow along it. -/
theorem pairwise_idxOf {all : List α} (h : all.Nodup) :
    all.Pairwise fun a b => all.idxOf a < all.idxOf b := by
  rw [List.pairwise_iff_getElem]
  intro i j hi hj hij
  rwa [h.idxOf_getElem i hi, h.idxOf_getElem j hj]

theorem pairwise_ranked {all : List α} (h : all.Nodup) :
    (ranked score all).Pairwise (Precedes score all) := by
  rw [List.pairwise_iff_forall_sublist]
  intro a b hab
  have hle : score b ≤ score a :=
    List.rel_of_pairwise_cons ((pairwise_byScore _).sublist hab) (List.mem_singleton_self b)
  rcases Int.lt_or_eq_of_le hle with hlt | heq
  · exact .inl hlt
  · -- Of those with one score the ranking keeps the order of the list.
    have hkept := hab.filter (score · = score a)
    rw [ranked, filter_byScore, List.filter_eq_self.mpr (by simp [heq])] at hkept
    have hall := (hkept.trans List.filter_sublist).trans List.filter_sublist
    exact .inr ⟨heq, List.rel_of_pairwise_cons ((pairwise_idxOf h).sublist hall)
      (List.mem_singleton_self b)⟩

/-- **A ranking that is cut off** holds the elements that rank first. -/
theorem isTop_ranked {all : List α} (h : all.Nodup) (limit : Nat) :
    IsTop score limit all ((ranked score all).take limit) where
  length_le := List.length_take_le limit _
  nodup := by
    have hnodup : (ranked score all).Nodup := (List.mergeSort_perm _ _).nodup_iff.mpr (h.filter _)
    exact hnodup.sublist (List.take_sublist limit _)
  listed a ha := ((mem_ranked_iff score).mp (List.mem_of_mem_take ha)).1
  positive a ha := ((mem_ranked_iff score).mp (List.mem_of_mem_take ha)).2
  ordered := (pairwise_ranked score h).sublist (List.take_sublist limit _)
  left_out := by
    intro a ha hout
    by_cases hpos : 0 < score a
    · -- What ranks and is left out stands behind the cut.
      have hsplit := List.take_append_drop limit (ranked score all)
      have hordered := pairwise_ranked score h
      have hmem := (mem_ranked_iff score).mpr ⟨ha, hpos⟩
      rw [← hsplit, List.pairwise_append] at hordered
      rw [← hsplit, List.mem_append] at hmem
      have hdrop := hmem.resolve_left hout
      have hlength := List.length_pos_of_mem hdrop
      rw [List.length_drop] at hlength
      exact .inr ⟨List.length_take_of_le (by omega), fun b hb => hordered.2.2 b hb a hdrop⟩
    · exact .inl (Int.not_lt.mp hpos)

end Ranking

/-! ## How much a file resembles a path -/

/-- The names of the directories of a path, in lower case. -/
def directoryNames (path : String) : List (List Char) :=
  (segments path).dropLast.map (lower ·.toList)

/-- The name of the file of a path, in lower case. -/
def lastName (path : String) : List Char := lower ((segments path).getLast?.getD "").toList

/-- What stands behind the last dot of a name; all of it if there is no dot. -/
def nameExtension (name : List Char) : List Char := (name.splitOn '.').getLast?.getD []

/-- Ten for the same name, five for a name inside the other. -/
def nameOverlap (path file : String) : Int :=
  if lastName file = lastName path then 10
  else if lastName file <:+: lastName path ∨ lastName path <:+: lastName file then 5
  else 0

/-- Two for the same extension. -/
def extensionOverlap (path file : String) : Int :=
  if nameExtension (lastName file) = nameExtension (lastName path) then 2 else 0

/-- Three for each directory of the path whose name a directory of the file has too. -/
def directoryOverlap (path file : String) : Int :=
  3 * (directoryNames path).countP (· ∈ directoryNames file)

/-- The difference between the numbers of segments. -/
def depthDifference (path file : String) : Int :=
  (((segments file).length : Int) - (segments path).length).natAbs

/-- How much a file resembles a path. -/
def score (path file : String) : Int :=
  nameOverlap path file + extensionOverlap path file + directoryOverlap path file -
    depthDifference path file

/-! ## The score of the ranking -/

/-- What stands behind the last occurrence of a character is the last part of the text. -/
theorem getLast?_splitOn (x : Char) (w : List Char) :
    (w.splitOn x).getLast? = some (w.rtakeWhile (· != x)) := by
  by_cases hx : x ∈ w
  · obtain ⟨v, u, hsplit, hv⟩ := List.eq_append_cons_of_mem (List.mem_reverse.mpr hx)
    obtain rfl : w = u.reverse ++ x :: v.reverse := by
      rw [← List.reverse_reverse w, hsplit]
      simp
    have hfree : x ∉ v.reverse := mt List.mem_reverse.mp hv
    rw [Plan.rtakeWhile_append_cons, Plan.rtakeWhile_eq_self hfree, List.splitOn_append_cons_self,
      List.splitOn_eq_singleton hfree, List.getLast?_concat]
  · rw [Plan.rtakeWhile_eq_self hx, List.splitOn_eq_singleton hx, List.getLast?_singleton]

theorem extension_eq (p : PathParts) : p.extension = nameExtension p.fileName := by
  rw [nameExtension, getLast?_splitOn]
  rfl

theorem fileName_ofPath (path : String) : (PathParts.ofPath path).fileName = lastName path := by
  simp only [PathParts.ofPath, lastName, List.getLast?_map]
  cases (segments path).getLast? with
  | none => rfl
  | some name => rfl

theorem directories_ofPath (path : String) :
    (PathParts.ofPath path).directories = directoryNames path :=
  List.map_dropLast.symm

theorem depth_ofPath (path : String) : (PathParts.ofPath path).depth = (segments path).length :=
  List.length_map _

/-- **Files are ranked by the score.** -/
theorem resemblance_eq_score (path file : String) :
    resemblance (.ofPath path) (.ofPath file) = score path file := by
  have hname : (if lastName file == lastName path then (10 : Int)
      else if contains (lastName file) (lastName path) || contains (lastName path) (lastName file)
        then 5 else 0) = nameOverlap path file := by
    simp only [nameOverlap, beq_iff_eq, Bool.or_eq_true, contains_iff_infix]
  have hextension : (if nameExtension (lastName file) == nameExtension (lastName path)
      then (2 : Int) else 0) = extensionOverlap path file := by
    simp only [extensionOverlap, beq_iff_eq]
  have hdirectory : (3 : Int) * ((directoryNames path).filter (directoryNames file).contains).length
      = directoryOverlap path file := by
    rw [directoryOverlap, List.countP_eq_length_filter]
    simp only [← List.contains_iff_mem, Bool.decide_eq_true]
  simp only [resemblance, extension_eq, fileName_ofPath, directories_ofPath, depth_ofPath, hname,
    hextension, hdirectory]
  rfl

theorem closestPaths_eq (path : String) (tree : FileTree) (limit : Nat) :
    closestPaths path tree limit = (ranked (score path) tree.paths).take limit := by
  have hscored : (tree.paths.map fun p => (resemblance (.ofPath path) (.ofPath p), p)) =
      tree.paths.map fun p => (score path p, p) := by
    simp only [resemblance_eq_score]
  have hsorted : ((tree.paths.filter fun p => 0 < score path p).map fun p => (score path p, p)
      ).mergeSort (fun a b => decide (b.1 ≤ a.1)) =
      (ranked (score path) tree.paths).map fun p => (score path p, p) :=
    (List.map_mergeSort (f := fun p => (score path p, p)) fun _ _ _ _ => rfl).symm
  simp only [closestPaths, hscored, List.filter_map, Function.comp_def, hsorted, List.map_take,
    List.map_map, List.map_id']

/-- **The files that are listed next to a path** are those that rank first: they are distinct files
of the tree with a positive score, the higher scores come first and among equal ones the order of
the tree counts, and a file is left out only if its score is not positive or if the list is full of
files that rank in front of it. -/
theorem isTop_closestPaths (path : String) (paths : List String) (limit : Nat) :
    IsTop (score path) limit (FileTree.ofList paths).paths
      (closestPaths path (.ofList paths) limit) := by
  rw [closestPaths_eq]
  exact isTop_ranked _ (nodup_firstPerKey_id paths) limit

end PlanAudit.Paths
