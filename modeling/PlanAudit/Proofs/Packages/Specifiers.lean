import PlanAudit.Packages.Bindings
import PlanAudit.Proofs.Fault
import PlanAudit.Proofs.Packages.Judgement
import PlanAudit.Proofs.Text.FirstPerKey
import PlanAudit.Proofs.Text.Segments
import PlanAudit.Proofs.Text.Words

/-!
# Specifiers that name no package

A specifier that is relative, an alias of the project or a module of the runtime names no package;
its first segment tells, so that it does not matter what follows.  Such specifiers are left out, but
those of directories of the project only with a slash behind the first segment: a dot alone is
judged as if it were a package.  Every other specifier is judged once, and is put together again
from the package and the subpath that are judged.

## Main definitions

* `firstSegment`: what stands in front of the first slash
* `NamesNoPackage`: the specifier is relative, an alias or a module of the runtime
* `GivesBack`: a package and a subpath are written as the specifier
* `Stems`: a statement with the specifier makes a binding
* `JudgedOnce`, `OnlyPackagesJudged`: what is judged of a plan are its packages, each once

## Main results

* `isLocalSpecifier_iff`: which specifiers are left out
* `givesBack_splitSpecifier`: a specifier that is taken apart can be put together again
* `exists_judgedOnce_iff`, `forall_stems_iff`: when references and bindings are about packages
* `onlyPackagesJudged_iff`: when both are
* `directory_judged`: a directory of the project may be judged as a package
-/

namespace PlanAudit.Packages

open Text Pattern

/-! ## The first segment -/

/-- What stands in front of the first slash of a string. -/
def firstSegment (s : String) : String := (segments s).headD ""

section FirstSegment

variable {s : String}

theorem exists_segments_eq (s : String) : ∃ rest, segments s = firstSegment s :: rest := by
  obtain ⟨first, rest, h⟩ := List.exists_cons_of_ne_nil (show segments s ≠ [] by simp [segments])
  exact ⟨rest, by rw [firstSegment, h, List.headD_cons]⟩

theorem firstSegment_append_slash {front : String} (h : '/' ∉ front.toList) (back : String) :
    firstSegment (front ++ "/" ++ back) = front := by
  rw [firstSegment, segments_append_slash h, List.headD_cons]

theorem firstSegment_eq_self (h : '/' ∉ s.toList) : firstSegment s = s := by
  rw [firstSegment, segments_eq_singleton h, List.headD_cons]

theorem slash_not_mem_firstSegment (s : String) : '/' ∉ (firstSegment s).toList := by
  obtain ⟨rest, h⟩ := exists_segments_eq s
  exact not_mem_of_mem_segments (h ▸ List.mem_cons_self)

/-- A string is its first segment alone, or that and a slash and more. -/
theorem eq_firstSegment_or (s : String) :
    s = firstSegment s ∨ ∃ back, s = firstSegment s ++ "/" ++ back := by
  by_cases hslash : '/' ∈ s.toList
  · obtain ⟨front, back, rfl, hfront⟩ := exists_eq_append_slash hslash
    exact Or.inr ⟨back, by rw [firstSegment_append_slash hfront]⟩
  · exact Or.inl (firstSegment_eq_self hslash).symm

/-- A beginning that ends in its only slash is a first segment with more behind it. -/
theorem stringBegins_slash_iff {front : String} (h : '/' ∉ front.toList) :
    stringBegins (front ++ "/") s = true ↔ firstSegment s = front ∧ s ≠ front := by
  rw [stringBegins_iff]
  constructor
  · rintro ⟨back, hback⟩
    have hs : s = front ++ "/" ++ String.ofList back := by
      rw [← String.toList_inj, ← hback]
      simp
    refine ⟨by rw [hs, firstSegment_append_slash h], fun hfront => h ?_⟩
    rw [← hfront, hs]
    simp
  · rintro ⟨rfl, hne⟩
    obtain hs | ⟨back, hs⟩ := eq_firstSegment_or s
    · exact absurd hs hne
    · conv_rhs => rw [hs, String.toList_append]
      exact List.prefix_append _ _

/-- A beginning without a slash is a beginning of the first segment. -/
theorem stringBegins_iff_firstSegment {piece : String} (h : '/' ∉ piece.toList) :
    stringBegins piece s = true ↔ stringBegins piece (firstSegment s) = true := by
  rw [stringBegins_iff, stringBegins_iff]
  obtain hs | ⟨back, hs⟩ := eq_firstSegment_or s
  · rw [← hs]
  · conv_lhs => rw [hs, String.append_assoc, String.toList_append]
    constructor
    · -- A longer beginning would reach over the slash.
      rintro ⟨rest, hrest⟩
      rw [String.toList_append (s := "/")] at hrest
      obtain ⟨z, hz⟩ := exists_eq_append_of_not_mem h hrest
      exact hz ▸ List.prefix_append _ _
    · exact fun hprefix => hprefix.trans (List.prefix_append _ _)

end FirstSegment

/-! ## Specifiers that name no package -/

/-- The segments that stand for directories of the project. -/
def localSegments : List String := [".", "..", "@", "~"]

theorem slash_not_mem_of_mem_localSegments {s : String} (h : s ∈ localSegments) :
    '/' ∉ s.toList := by
  have hfree : ∀ s ∈ localSegments, '/' ∉ s.toList := by decide
  exact hfree s h

/-- The specifier is relative, an alias of the project or a module of the runtime. -/
def NamesNoPackage (s : String) : Prop :=
  firstSegment s ∈ localSegments ∨ firstSegment s ∈ runtimeModules ∨ stringBegins "#" s = true ∨
    stringBegins "node:" s = true

instance (s : String) : Decidable (NamesNoPackage s) :=
  inferInstanceAs (Decidable (_ ∨ _ ∨ _ ∨ _))

theorem namesNoPackage_congr {s t : String} (h : firstSegment s = firstSegment t) :
    NamesNoPackage s ↔ NamesNoPackage t := by
  have hhash : '/' ∉ "#".toList := by decide
  have hnode : '/' ∉ "node:".toList := by decide
  unfold NamesNoPackage
  rw [stringBegins_iff_firstSegment hhash, stringBegins_iff_firstSegment hnode, h,
    ← stringBegins_iff_firstSegment hhash, ← stringBegins_iff_firstSegment hnode]

/-- A specifier is left out for its beginning or for its first segment. -/
theorem localSpecifier_cases {s : String} :
    isLocalSpecifier s = true ↔
      (∃ front ∈ localSegments, stringBegins (front ++ "/") s = true) ∨
        firstSegment s ∈ runtimeModules ∨ stringBegins "#" s = true ∨
          stringBegins "node:" s = true := by
  have hlisted : localBeginnings = localSegments.map (· ++ "/") ++ ["#", "node:"] := by decide
  obtain ⟨rest, hrest⟩ := exists_segments_eq s
  unfold isLocalSpecifier
  rw [hrest, hlisted]
  simp only [List.any_append, List.any_map, List.head?_cons, Option.any_some, Bool.or_eq_true,
    List.any_eq_true, Function.comp_apply, List.contains_iff_mem, List.any_cons, List.any_nil,
    Bool.or_false]
  rw [or_assoc]
  exact or_congr_right or_comm

/-- **Which specifiers are left out**: those that name no package, except for a directory of the
project without a slash behind it. -/
theorem isLocalSpecifier_iff {s : String} :
    isLocalSpecifier s = true ↔ NamesNoPackage s ∧ s ∉ localSegments := by
  have hbare : ∀ front ∈ localSegments, front ∉ runtimeModules ∧
      stringBegins "#" front = false ∧ stringBegins "node:" front = false := by
    decide
  rw [localSpecifier_cases]
  constructor
  · rintro (⟨front, hfront, hbegins⟩ | hnone)
    · have hslash := slash_not_mem_of_mem_localSegments hfront
      obtain ⟨rfl, hne⟩ := (stringBegins_slash_iff hslash).mp hbegins
      refine ⟨Or.inl hfront, fun hs => hne ?_⟩
      exact (firstSegment_eq_self (slash_not_mem_of_mem_localSegments hs)).symm
    · -- A bare segment is left out for none of the other reasons.
      refine ⟨Or.inr hnone, fun hs => ?_⟩
      obtain ⟨hruntime, hhash, hnode⟩ := hbare s hs
      rw [firstSegment_eq_self (slash_not_mem_of_mem_localSegments hs), hhash, hnode] at hnone
      simp [hruntime] at hnone
  · rintro ⟨hfirst | hnone, hs⟩
    · have hslash := slash_not_mem_of_mem_localSegments hfirst
      refine Or.inl ⟨_, hfirst, (stringBegins_slash_iff hslash).mpr ⟨rfl, fun heq => hs ?_⟩⟩
      rwa [heq]
    · exact Or.inr hnone

/-! ## Specifiers taken apart -/

/-- A package and a subpath inside it, written as a specifier. -/
def written (package : String) : Option String → String
  | some subpath => package ++ "/" ++ subpath
  | none => package

/-- The specifier is what the package and the subpath are written as, up to a slash at its end. -/
def GivesBack (package : String) (subpath : Option String) (s : String) : Prop :=
  written package subpath = s ∨ written package subpath ++ "/" = s

theorem givesBack_joinedSubpath (package : String) (parts : List String) :
    GivesBack package (joinedSubpath parts) ("/".intercalate (package :: parts)) := by
  unfold joinedSubpath GivesBack
  cases parts with
  | nil => exact Or.inl String.intercalate_singleton.symm
  | cons part parts =>
    rw [String.intercalate_cons_of_ne_nil (List.cons_ne_nil part parts)]
    by_cases hempty : "/".intercalate (part :: parts) = ""
    · -- An empty subpath is none, and the slash in front of it is lost.
      rw [hempty, String.append_empty]
      exact Or.inr rfl
    · simp only [if_neg hempty]
      exact Or.inl rfl

/-- A scope and the name after it count as one part. -/
theorem intercalate_scope (scope name : String) (parts : List String) :
    "/".intercalate (scope :: name :: parts) =
      "/".intercalate ((scope ++ "/" ++ name) :: parts) := by
  cases parts with
  | nil =>
    rw [String.intercalate_cons_cons, String.intercalate_singleton, String.intercalate_singleton]
  | cons part parts =>
    simp only [String.intercalate_cons_cons, String.append_assoc]

/-- **A specifier that is taken apart can be put together again.** -/
theorem givesBack_splitSpecifier (s : String) :
    GivesBack (splitSpecifier s).package (splitSpecifier s).subpath s := by
  have hs := intercalate_segments s
  unfold splitSpecifier
  split
  · -- With a scope, which counts to the package with the segment behind it, if there is one.
    split
    · rename_i scope name rest hsegments
      rw [hsegments, intercalate_scope] at hs
      conv => arg 3; rw [← hs]
      exact givesBack_joinedSubpath _ _
    · exact Or.inl rfl
  · split
    · rename_i name rest hsegments
      rw [hsegments] at hs
      conv => arg 3; rw [← hs]
      exact givesBack_joinedSubpath _ _
    · exact Or.inl rfl

theorem firstSegment_package (s : String) :
    firstSegment (splitSpecifier s).package = firstSegment s := by
  obtain ⟨rest, hrest⟩ := exists_segments_eq s
  have hfirst := slash_not_mem_firstSegment s
  unfold splitSpecifier
  rw [hrest]
  split
  · -- The package of a scope is the scope with the segment behind it.
    cases rest with
    | nil => rfl
    | cons name rest => exact firstSegment_append_slash hfirst name
  · exact firstSegment_eq_self hfirst

/-- Whether a specifier names a package is told by the package that it is taken apart into. -/
theorem namesNoPackage_package {s : String} :
    NamesNoPackage (splitSpecifier s).package ↔ NamesNoPackage s :=
  namesNoPackage_congr (firstSegment_package s)

/-! ## References -/

section References

variable {plan : List Char} {files : FileSystem} {packages : Path} {refs : List Reference}

theorem mem_importMentions_iff {m : Mention} :
    m ∈ importMentions plan ↔
      ∃ s ∈ importSources plan, isLocalSpecifier s = false ∧ importMention s = m := by
  simp [importMentions, and_assoc]

/-- Every specifier is mentioned once. -/
theorem nodup_raw_importMentions : ((importMentions plan).map (·.raw)).Nodup := by
  have hraw : (importMentions plan).map (·.raw) =
      (importSources plan).filter fun s => !isLocalSpecifier s := by
    rw [importMentions, List.map_map]
    exact List.map_id'' (fun _ => rfl) _
  rw [hraw]
  exact (nodup_firstPerKey_id _).filter _

/-- The references of a plan are judgements of its mentions. -/
theorem exists_mem_of_mem_analyzeImports (h : analyzeImports plan files packages = .ok refs)
    {r : Reference} (hr : r ∈ refs) :
    ∃ s ∈ importSources plan, isLocalSpecifier s = false ∧ r.toMention = importMention s := by
  obtain ⟨judged, hjudged, rfl⟩ := map_eq_ok_iff.mp h
  obtain ⟨m, hm, hjudge⟩ := exists_mem_of_mapM_eq_ok hjudged (mem_of_mem_firstPerKey _ hr)
  obtain ⟨s, hs, hlocal, rfl⟩ := mem_importMentions_iff.mp hm
  exact ⟨s, hs, hlocal, toMention_judgeImport hjudge⟩

theorem map_raw_of_mapM_judgeImport {mentions : List Mention}
    (h : mentions.mapM (judgeImport files packages) = .ok refs) :
    refs.map (·.raw) = mentions.map (·.raw) := by
  have hall := mapM_eq_ok_iff.mp h
  clear h
  induction hall with
  | nil => rfl
  | cons hhead _ ih => rw [List.map_cons, List.map_cons, ih, ← toMention_judgeImport hhead]

/-- Every specifier that is not left out is judged once. -/
theorem count_raw_analyzeImports (h : analyzeImports plan files packages = .ok refs) {s : String}
    (hs : s ∈ importSources plan) (hlocal : isLocalSpecifier s = false) :
    (refs.map (·.raw)).count s = 1 := by
  obtain ⟨judged, hjudged, rfl⟩ := map_eq_ok_iff.mp h
  have hraw := map_raw_of_mapM_judgeImport hjudged
  -- At most once, since the specifiers are all different; and some reference with it is kept.
  have hnodup : ((Reference.dedupe judged).map (·.raw)).Nodup :=
    ((firstPerKey_sublist _ _).map _).nodup (hraw ▸ nodup_raw_importMentions)
  refine List.count_eq_one_of_mem hnodup (List.mem_map.mpr ?_)
  obtain ⟨r, hr, hjudge⟩ := mem_of_mapM_eq_ok hjudged
    (mem_importMentions_iff.mpr ⟨s, hs, hlocal, rfl⟩)
  obtain ⟨kept, hkept, hevidence⟩ := exists_mem_firstPerKey Reference.evidence hr
  refine ⟨kept, hkept, (Prod.mk.inj hevidence).1.trans ?_⟩
  rw [toMention_judgeImport hjudge]
  rfl

end References

/-! ## Bindings -/

/-- The forms of statements that bind names, with what is read of each. -/
def statementForms : List (Pattern × (String → List Char → List Binding)) :=
  [(importStatement, clauseBindings), (requireStatement, assignedBindings)]

/-- A statement of the plan with the specifier makes the binding. -/
def Stems (plan : List Char) (b : Binding) (s : String) : Prop :=
  ∃ form ∈ statementForms, ∃ m ∈ form.1.findAll (Plan.joinedBlocks plan), m.name 2 = s ∧
    b ∈ form.2 (splitSpecifier s).package (strip (m.group 1))

section Bindings

variable {plan : List Char} {b : Binding} {s package : String}

theorem package_namedBindings {list : List Char} (h : b ∈ namedBindings package list) :
    b.package = package := by
  obtain ⟨part, -, hpart⟩ := List.mem_filterMap.mp h
  unfold namedBinding? at hpart
  split at hpart
  · cases hpart
  · split at hpart
    · obtain rfl := Option.some.inj hpart
      rfl
    · split at hpart
      · obtain rfl := Option.some.inj hpart
        rfl
      · cases hpart

theorem package_clauseBindings {clause : List Char} (h : b ∈ clauseBindings package clause) :
    b.package = package := by
  unfold clauseBindings at h
  split at h
  · obtain rfl := List.mem_singleton.mp h
    rfl
  · split at h
    · rcases List.mem_cons.mp h with rfl | h
      · rfl
      · exact package_namedBindings h
    · split at h
      · rcases List.mem_cons.mp h with rfl | h
        · rfl
        · obtain rfl := List.mem_singleton.mp h
          rfl
      · split at h
        · exact package_namedBindings h
        · split at h
          · obtain rfl := List.mem_singleton.mp h
            rfl
          · cases h

theorem package_assignedBindings {pattern : List Char}
    (h : b ∈ assignedBindings package pattern) : b.package = package := by
  unfold assignedBindings at h
  split at h
  · obtain ⟨part, -, hpart⟩ := List.mem_filterMap.mp h
    unfold destructuredBinding? at hpart
    split at hpart
    · cases hpart
    · split at hpart
      · obtain rfl := Option.some.inj hpart
        rfl
      · obtain rfl := Option.some.inj hpart
        rfl
  · obtain rfl := List.mem_singleton.mp h
    rfl

/-- A binding has the package of the specifier it stems from. -/
theorem Stems.package_eq (h : Stems plan b s) : b.package = (splitSpecifier s).package := by
  obtain ⟨form, hform, m, -, -, hb⟩ := h
  rcases List.mem_cons.mp hform with rfl | hform
  · exact package_clauseBindings hb
  · obtain rfl := List.mem_singleton.mp hform
    exact package_assignedBindings hb

theorem mem_statementBindings_iff {statement : Pattern} {read : String → List Char → List Binding}
    {code : List Char} :
    b ∈ statementBindings statement read code ↔
      ∃ m ∈ statement.findAll code, isLocalSpecifier (m.name 2) = false ∧
        b ∈ read (splitSpecifier (m.name 2)).package (strip (m.group 1)) := by
  unfold statementBindings
  rw [List.mem_flatMap]
  refine exists_congr fun m => and_congr_right fun _ => ?_
  cases hlocal : isLocalSpecifier (m.name 2) <;> simp [hlocal]

/-- The bindings of a plan stem from the specifiers that are not left out. -/
theorem exists_stems_iff :
    (∃ s, Stems plan b s ∧ isLocalSpecifier s = false) ↔
      b ∈ statementBindings importStatement clauseBindings (Plan.joinedBlocks plan) ++
        statementBindings requireStatement assignedBindings (Plan.joinedBlocks plan) := by
  rw [List.mem_append, mem_statementBindings_iff, mem_statementBindings_iff]
  constructor
  · rintro ⟨s, ⟨form, hform, m, hm, rfl, hb⟩, hlocal⟩
    rcases List.mem_cons.mp hform with rfl | hform
    · exact Or.inl ⟨m, hm, hlocal, hb⟩
    · obtain rfl := List.mem_singleton.mp hform
      exact Or.inr ⟨m, hm, hlocal, hb⟩
  · rintro (⟨m, hm, hlocal, hb⟩ | ⟨m, hm, hlocal, hb⟩)
    · exact ⟨_, ⟨(importStatement, clauseBindings), by simp [statementForms], m, hm, rfl, hb⟩,
        hlocal⟩
    · exact ⟨_, ⟨(requireStatement, assignedBindings), by simp [statementForms], m, hm, rfl, hb⟩,
        hlocal⟩

theorem exists_stems_of_mem_bindings (h : b ∈ bindings plan) :
    ∃ s, Stems plan b s ∧ isLocalSpecifier s = false :=
  exists_stems_iff.mpr (mem_of_mem_firstPerKey _ h)

theorem exists_mem_bindings (h : Stems plan b s) (hlocal : isLocalSpecifier s = false) :
    ∃ kept ∈ bindings plan, kept.package = b.package := by
  obtain ⟨kept, hkept, hkey⟩ :=
    exists_mem_firstPerKey Binding.key (exists_stems_iff.mp ⟨s, h, hlocal⟩)
  exact ⟨kept, hkept, (Prod.mk.inj (Prod.mk.inj hkey).2).1⟩

end Bindings

/-! ## Only packages are judged -/

theorem not_isLocalSpecifier_iff {s : String} :
    isLocalSpecifier s = false ↔ (NamesNoPackage s → s ∈ localSegments) := by
  rw [← Bool.not_eq_true, isLocalSpecifier_iff, not_and, not_not]

theorem namesNoPackage_of_mem_localSegments {s : String} (h : s ∈ localSegments) :
    NamesNoPackage s := by
  rw [← firstSegment_eq_self (slash_not_mem_of_mem_localSegments h)] at h
  exact Or.inl h

/-- The references are judgements of packages, one for each specifier that names a package, and
the specifier can be put together again from what is judged. -/
structure JudgedOnce (plan : List Char) (refs : List Reference) : Prop where
  namesPackage : ∀ r ∈ refs, ¬ NamesNoPackage r.raw
  once : ∀ s ∈ importSources plan, ¬ NamesNoPackage s → (refs.map (·.raw)).count s = 1
  givesBack : ∀ r ∈ refs, ∃ package, r.owner = some package ∧ GivesBack package r.name r.raw

/-- The specifier can be judged: no manifest that has to be read for it is at fault. -/
def Judgeable (files : FileSystem) (packages : Path) (s : String) : Prop :=
  ∃ r, judgeImport files packages (importMention s) = .ok r

/-- Neither a reference nor a binding of the plan stems from a specifier that names no package, and
every other specifier is judged once. -/
def OnlyPackagesJudged (plan : List Char) (files : FileSystem) (packages : Path) : Prop :=
  (∃ refs, analyzeImports plan files packages = .ok refs ∧ JudgedOnce plan refs) ∧
    ∀ b ∈ bindings plan, ∀ s, Stems plan b s → ¬ NamesNoPackage s

section Judged

variable {plan : List Char} {files : FileSystem} {packages : Path}

theorem exists_judgedOnce_iff :
    (∃ refs, analyzeImports plan files packages = .ok refs ∧ JudgedOnce plan refs) ↔
      (∀ s ∈ importSources plan, s ∉ localSegments) ∧
        ∀ s ∈ importSources plan, ¬ NamesNoPackage s → Judgeable files packages s := by
  constructor
  · rintro ⟨refs, hrefs, honce⟩
    refine ⟨fun s hs hbare => ?_, fun s hs hnone => ?_⟩
    · -- It is not left out, so that there is a reference to it.
      have hlocal := not_isLocalSpecifier_iff.mpr fun _ => hbare
      have hcount := count_raw_analyzeImports hrefs hs hlocal
      obtain ⟨r, hr, rfl⟩ := List.mem_map.mp (List.count_pos_iff.mp (hcount ▸ Nat.one_pos))
      exact honce.namesPackage r hr (namesNoPackage_of_mem_localSegments hbare)
    · obtain ⟨judged, hjudged, -⟩ := map_eq_ok_iff.mp hrefs
      have hlocal := not_isLocalSpecifier_iff.mpr fun h => absurd h hnone
      obtain ⟨r, -, hr⟩ := mem_of_mapM_eq_ok hjudged
        (mem_importMentions_iff.mpr ⟨s, hs, hlocal, rfl⟩)
      exact ⟨r, hr⟩
  · rintro ⟨hbare, hjudgeable⟩
    have hpackage : ∀ s ∈ importSources plan, isLocalSpecifier s = false → ¬ NamesNoPackage s :=
      fun s hs hlocal hnone => hbare s hs (not_isLocalSpecifier_iff.mp hlocal hnone)
    obtain ⟨judged, hjudged⟩ :
        ∃ judged, (importMentions plan).mapM (judgeImport files packages) = .ok judged := by
      refine exists_mapM_eq_ok fun m hm => ?_
      obtain ⟨s, hs, hlocal, rfl⟩ := mem_importMentions_iff.mp hm
      exact hjudgeable s hs (hpackage s hs hlocal)
    have hrefs : analyzeImports plan files packages = .ok (Reference.dedupe judged) :=
      map_eq_ok_iff.mpr ⟨judged, hjudged, rfl⟩
    refine ⟨_, hrefs, fun r hr => ?_, fun s hs hnone => ?_, fun r hr => ?_⟩
    · obtain ⟨s, hs, hlocal, hr⟩ := exists_mem_of_mem_analyzeImports hrefs hr
      rw [hr]
      exact hpackage s hs hlocal
    · exact count_raw_analyzeImports hrefs hs
        (not_isLocalSpecifier_iff.mpr fun h => absurd h hnone)
    · obtain ⟨s, -, -, hr⟩ := exists_mem_of_mem_analyzeImports hrefs hr
      rw [hr]
      exact ⟨_, rfl, givesBack_splitSpecifier s⟩

theorem forall_stems_iff :
    (∀ b ∈ bindings plan, ∀ s, Stems plan b s → ¬ NamesNoPackage s) ↔
      ∀ b s, Stems plan b s → s ∉ localSegments := by
  constructor
  · intro h b s hb hs
    have hnone := namesNoPackage_of_mem_localSegments hs
    obtain ⟨kept, hkept, hpackage⟩ :=
      exists_mem_bindings hb (not_isLocalSpecifier_iff.mpr fun _ => hs)
    -- The binding that is kept may stem from another specifier, but of the same package.
    obtain ⟨s', hkept', -⟩ := exists_stems_of_mem_bindings hkept
    refine h kept hkept s' hkept' (namesNoPackage_package.mp ?_)
    rw [← hkept'.package_eq, hpackage, hb.package_eq]
    exact namesNoPackage_package.mpr hnone
  · intro h b hb s hs hnone
    obtain ⟨s', hs', hlocal⟩ := exists_stems_of_mem_bindings hb
    refine h b s' hs' (not_isLocalSpecifier_iff.mp hlocal (namesNoPackage_package.mp ?_))
    rw [← hs'.package_eq, hs.package_eq]
    exact namesNoPackage_package.mpr hnone

/-- **When only packages are judged**: exactly if no specifier and no binding is about a directory
of the project without a slash behind it, and no manifest is at fault. -/
theorem onlyPackagesJudged_iff (plan : List Char) (files : FileSystem) (packages : Path) :
    OnlyPackagesJudged plan files packages ↔
      (∀ s ∈ importSources plan, s ∉ localSegments) ∧
        (∀ b s, Stems plan b s → s ∉ localSegments) ∧
          ∀ s ∈ importSources plan, ¬ NamesNoPackage s → Judgeable files packages s := by
  unfold OnlyPackagesJudged
  rw [exists_judgedOnce_iff, forall_stems_iff]
  constructor
  · rintro ⟨⟨hsources, hjudgeable⟩, hbindings⟩
    exact ⟨hsources, hbindings, hjudgeable⟩
  · rintro ⟨hsources, hbindings, hjudgeable⟩
    exact ⟨⟨hsources, hjudgeable⟩, hbindings⟩

/-- **The directory of a file may be judged as a package**: a dot alone is not left out. -/
theorem directory_judged : ¬ ∀ (plan : List Char) (files : FileSystem) (packages : Path),
    OnlyPackagesJudged plan files packages := by
  intro hall
  have hdot : "." ∈ importSources "import x from '.';".toList := by decide +kernel
  obtain ⟨hsources, -⟩ :=
    exists_judgedOnce_iff.mp (hall "import x from '.';".toList .empty ["node_modules"]).1
  exact hsources "." hdot (by decide)

end Judged

end PlanAudit.Packages
