import PlanAudit.Packages.Judgement
import PlanAudit.Proofs.Fault
import PlanAudit.Proofs.Text.Segments
import PlanAudit.Proofs.Text.Words

/-!
# Judged packages

Whether a package is installed is decided by its manifest.  For one that is not, the first entry of
a directory whose name overlaps its own is suggested: of the directory of its scope if it has one,
of all packages otherwise.  Entries are suggested without a look at their manifests, so that the
suggestion may not be installed either: it may be a directory without a manifest, a scope, a file,
and in a scope even the missing package itself.

## Main definitions

* `HasManifest`: what decides whether a package is installed
* `Overlap`, `FirstOverlap`: the first name of a list that contains another or is contained in it
* `Suggested`: what is suggested for a name
* `Accepted`: a package passes as installed
* `SoundSuggestion`: what is suggested is another package, and passes

## Main results

* `judgeImport_cases`: what an import may be judged to be
* `suggestPackage_eq_some_iff`: what is suggested
* `soundSuggestion_iff`: when the suggestion is sound
* `suggested_self_iff`: when a name is suggested in its own place
* `missing_package_suggested`: a missing package may be suggested in its own place
-/

namespace PlanAudit.Packages

open Text

/-! ## Manifests

Every judgement of an import is one of three: without a manifest the package is missing; with one it
passes as a whole, and a subpath passes unless the manifest lists the subpaths without it. -/

section Manifests

variable (files : FileSystem) (packages : Path)

/-- The package has a manifest, which is what decides whether it is installed. -/
def HasManifest (name : String) : Prop :=
  files.isFile ((packages.join name).join manifestName) = true

instance (name : String) : Decidable (HasManifest files packages name) :=
  inferInstanceAs (Decidable (_ = true))

variable {files packages} {m : Mention} {r : Reference}

theorem judgeImport_of_missing (h : ¬ HasManifest files packages (mentionedPackage m)) :
    judgeImport files packages m = .ok (m.reject .packageNotFound
      (suggestPackage files packages (mentionedPackage m))) := by
  unfold judgeImport
  rw [if_pos (by simpa [HasManifest] using h)]

theorem judgeImport_of_hasManifest (h : HasManifest files packages (mentionedPackage m))
    (hname : m.name = none) : judgeImport files packages m = .ok m.accept := by
  unfold judgeImport
  simp only [hname]
  rw [if_neg (by simpa [HasManifest] using h)]

/-- **What an import may be judged to be.** -/
theorem judgeImport_cases (h : judgeImport files packages m = .ok r) :
    ¬ HasManifest files packages (mentionedPackage m) ∧
        r = m.reject .packageNotFound (suggestPackage files packages (mentionedPackage m)) ∨
      HasManifest files packages (mentionedPackage m) ∧
        (r = m.accept ∨ ∃ suggestion, r = m.reject .subpathNotExported suggestion) := by
  by_cases hmanifest : HasManifest files packages (mentionedPackage m)
  · refine Or.inr ⟨hmanifest, ?_⟩
    cases hname : m.name with
    | none =>
      rw [judgeImport_of_hasManifest hmanifest hname] at h
      exact Or.inl (Except.ok.inj h).symm
    | some subpath =>
      unfold judgeImport at h
      simp only [hname] at h
      rw [if_neg (by simpa [HasManifest] using hmanifest)] at h
      obtain ⟨exported, -, rfl⟩ := map_eq_ok_iff.mp h
      cases exported with
      | none => exact Or.inl rfl
      | some exported =>
        simp only [judgeSubpath]
        split
        · exact Or.inl rfl
        · exact Or.inr ⟨_, rfl⟩
  · rw [judgeImport_of_missing hmanifest] at h
    exact Or.inl ⟨hmanifest, (Except.ok.inj h).symm⟩

/-- A judgement is about the mention that is judged. -/
theorem toMention_judgeImport (h : judgeImport files packages m = .ok r) : r.toMention = m := by
  rcases judgeImport_cases h with ⟨-, rfl⟩ | ⟨-, rfl | ⟨suggestion, rfl⟩⟩
  · rfl
  · rfl
  · rfl

end Manifests

/-! ## Overlapping names -/

/-- One of the names contains the other when case is ignored. -/
def Overlap (name other : String) : Prop :=
  lower name.toList <:+: lower other.toList ∨ lower other.toList <:+: lower name.toList

/-- The entry is the first that overlaps the name. -/
def FirstOverlap (name : String) (entries : List String) (entry : String) : Prop :=
  ∃ front back, entries = front ++ entry :: back ∧ Overlap name entry ∧
    ∀ other ∈ front, ¬ Overlap name other

theorem overlaps_iff {name other : String} : overlaps name other = true ↔ Overlap name other := by
  unfold overlaps Overlap
  rw [Bool.or_eq_true, contains_iff_infix, contains_iff_infix]

theorem suggest_eq_some_iff {name entry : String} {entries : List String} :
    suggest name entries = some entry ↔ FirstOverlap name entries entry := by
  unfold suggest FirstOverlap
  rw [List.find?_eq_some_iff_append, overlaps_iff]
  constructor
  · rintro ⟨hentry, front, back, hentries, hfront⟩
    exact ⟨front, back, hentries, hentry, fun x hx => by simpa [← overlaps_iff] using hfront x hx⟩
  · rintro ⟨front, back, hentries, hentry, hfront⟩
    exact ⟨hentry, front, back, hentries, fun x hx => by simpa [← overlaps_iff] using hfront x hx⟩

theorem FirstOverlap.mem {name entry : String} {entries : List String}
    (h : FirstOverlap name entries entry) : entry ∈ entries ∧ Overlap name entry := by
  obtain ⟨front, back, rfl, hentry, -⟩ := h
  exact ⟨List.mem_append_right front List.mem_cons_self, hentry⟩

/-! ## What is suggested -/

variable (files : FileSystem) (packages : Path)

/-- What is suggested for a name: for one with a scope, or for a scope alone, the first entry of the
scope that overlaps what stands behind it; for any other the first of all entries but itself. -/
inductive Suggested : String → String → Prop
  | inScope {scope name entry : String} (hscope : stringBegins "@" scope = true)
      (hslash : '/' ∉ scope.toList)
      (h : FirstOverlap name (installed files (packages.join scope)) entry) :
      Suggested (scope ++ "/" ++ name) (scope ++ "/" ++ entry)
  | ofScope {scope entry : String} (hscope : stringBegins "@" scope = true)
      (hslash : '/' ∉ scope.toList)
      (h : FirstOverlap "" (installed files (packages.join scope)) entry) :
      Suggested scope (scope ++ "/" ++ entry)
  | plain {name entry : String} (hplain : stringBegins "@" name = false)
      (h : FirstOverlap name ((installed files packages).filter (· != name)) entry) :
      Suggested name entry

variable {files packages}

/-- For a scope, with a name behind it or without, the entries of the scope count. -/
theorem suggestPackage_scope {scope rest : String} (hscope : stringBegins "@" scope = true)
    (hslash : '/' ∉ scope.toList) (hrest : ∀ c ∈ rest.toList.head?, c = '/') :
    suggestPackage files packages (scope ++ rest) =
      (suggest (dropString 1 rest) (installed files (packages.join scope))).map
        (scope ++ "/" ++ ·) := by
  have hbegins : stringBegins "@" (scope ++ rest) = true := by
    rw [stringBegins_iff, String.toList_append]
    exact (stringBegins_iff.mp hscope).trans (List.prefix_append _ _)
  -- The scope is what stands in front of the first slash, and the rest is dropped with the slash.
  have htake : String.ofList ((scope ++ rest).toList.takeWhile (· != '/')) = scope := by
    rw [String.toList_append, takeWhile_append, String.ofList_toList]
    · exact fun c hc => bne_iff_ne.mpr fun heq => hslash (heq ▸ hc)
    · exact fun c hc => by simp [hrest c hc]
  have hdrop : dropString (scope.length + 1) (scope ++ rest) = dropString 1 rest := by
    rw [dropString, dropString, String.toList_append, ← String.length_toList,
      List.drop_append, List.drop_eq_nil_of_le (Nat.le_succ _), List.nil_append,
      Nat.add_sub_cancel_left]
  unfold suggestPackage
  rw [if_pos hbegins]
  simp only [htake, hdrop]

theorem suggestPackage_plain {name : String} (h : stringBegins "@" name = false) :
    suggestPackage files packages name =
      suggest name ((installed files packages).filter (· != name)) := by
  unfold suggestPackage
  rw [if_neg (by simp [h])]

theorem suggestPackage_inScope {scope name : String} (hscope : stringBegins "@" scope = true)
    (hslash : '/' ∉ scope.toList) :
    suggestPackage files packages (scope ++ "/" ++ name) =
      (suggest name (installed files (packages.join scope))).map (scope ++ "/" ++ ·) := by
  have hname : dropString 1 ("/" ++ name) = name := by simp [dropString]
  rw [String.append_assoc, suggestPackage_scope hscope hslash, hname]
  rw [String.toList_append]
  exact forall_head?_cons rfl

theorem suggestPackage_ofScope {scope : String} (hscope : stringBegins "@" scope = true)
    (hslash : '/' ∉ scope.toList) :
    suggestPackage files packages scope =
      (suggest "" (installed files (packages.join scope))).map (scope ++ "/" ++ ·) := by
  have hrest : ∀ c ∈ "".toList.head?, c = '/' := fun c hc => nomatch hc
  have h : suggestPackage files packages (scope ++ "") =
      (suggest "" (installed files (packages.join scope))).map (scope ++ "/" ++ ·) :=
    suggestPackage_scope hscope hslash hrest
  rwa [String.append_empty] at h

/-- The at sign in front of a name with a slash is in front of the slash. -/
theorem begins_of_append_slash {scope name : String}
    (h : stringBegins "@" (scope ++ "/" ++ name) = true) : stringBegins "@" scope = true := by
  rw [stringBegins_iff, String.append_assoc, String.toList_append] at h
  rw [stringBegins_iff]
  cases hchars : scope.toList with
  | nil =>
    -- The slash would come first.
    rw [hchars, String.toList_append] at h
    exact absurd (List.cons_prefix_cons.mp h).1 (by decide)
  | cons c rest =>
    rw [hchars] at h
    exact List.cons_prefix_cons.mpr ⟨(List.cons_prefix_cons.mp h).1, List.nil_prefix⟩

/-- **What is suggested for a name.** -/
theorem suggestPackage_eq_some_iff {name s : String} :
    suggestPackage files packages name = some s ↔ Suggested files packages name s := by
  constructor
  · intro h
    cases hscope : stringBegins "@" name with
    | false =>
      rw [suggestPackage_plain hscope] at h
      exact .plain hscope (suggest_eq_some_iff.mp h)
    | true =>
      by_cases hslash : '/' ∈ name.toList
      · obtain ⟨scope, bare, rfl, hscopeless⟩ := exists_eq_append_slash hslash
        have hfront := begins_of_append_slash hscope
        rw [suggestPackage_inScope hfront hscopeless] at h
        obtain ⟨entry, hentry, rfl⟩ := Option.map_eq_some_iff.mp h
        exact .inScope hfront hscopeless (suggest_eq_some_iff.mp hentry)
      · rw [suggestPackage_ofScope hscope hslash] at h
        obtain ⟨entry, hentry, rfl⟩ := Option.map_eq_some_iff.mp h
        exact .ofScope hscope hslash (suggest_eq_some_iff.mp hentry)
  · intro h
    cases h with
    | inScope hscope hslash h =>
      rw [suggestPackage_inScope hscope hslash, suggest_eq_some_iff.mpr h, Option.map_some]
    | ofScope hscope hslash h =>
      rw [suggestPackage_ofScope hscope hslash, suggest_eq_some_iff.mpr h, Option.map_some]
    | plain hplain h =>
      rw [suggestPackage_plain hplain]
      exact suggest_eq_some_iff.mpr h

/-! ## Sound suggestions -/

variable (files packages)

/-- The mention of a package as a whole. -/
def packageMention (name : String) : Mention :=
  { raw := name, kind := .importSource, owner := some name }

/-- The package passes as installed. -/
def Accepted (name : String) : Prop :=
  judgeImport files packages (packageMention name) = .ok (packageMention name).accept

/-- If the mention is rejected because its package is missing, what is suggested is another package,
and passes as installed. -/
def SoundSuggestion (m : Mention) : Prop :=
  ∀ r, judgeImport files packages m = .ok r → r.category = some .packageNotFound →
    ∀ s, r.suggestion = some s → s ≠ mentionedPackage m ∧ Accepted files packages s

variable {files packages}

theorem mentionedPackage_packageMention (name : String) :
    mentionedPackage (packageMention name) = name := by
  unfold mentionedPackage packageMention Mention.ownerName
  split <;> rfl

/-- A package passes exactly if it has a manifest. -/
theorem accepted_iff {name : String} :
    Accepted files packages name ↔ HasManifest files packages name := by
  constructor
  · intro h
    by_contra hmissing
    rw [← mentionedPackage_packageMention name] at hmissing
    cases h.symm.trans (judgeImport_of_missing hmissing)
  · intro h
    rw [← mentionedPackage_packageMention name] at h
    exact judgeImport_of_hasManifest h rfl

/-- **When the suggestion is sound**: exactly if, for a package that is missing, the first entry
whose name overlaps has a manifest. -/
theorem soundSuggestion_iff (files : FileSystem) (packages : Path) (m : Mention) :
    SoundSuggestion files packages m ↔
      ¬ HasManifest files packages (mentionedPackage m) →
        ∀ s, Suggested files packages (mentionedPackage m) s → HasManifest files packages s := by
  constructor
  · intro h hmissing s hs
    have hjudged := judgeImport_of_missing hmissing
    rw [suggestPackage_eq_some_iff.mpr hs] at hjudged
    exact accepted_iff.mp (h _ hjudged rfl s rfl).2
  · intro h r hr hcategory s hs
    rcases judgeImport_cases hr with ⟨hmissing, rfl⟩ | ⟨-, rfl | ⟨suggestion, rfl⟩⟩
    · have hmanifest := h hmissing s (suggestPackage_eq_some_iff.mp hs)
      refine ⟨?_, accepted_iff.mpr hmanifest⟩
      rintro rfl
      exact hmissing hmanifest
    · cases hcategory
    · cases hcategory

/-- A name is suggested in its own place only in a scope, and there if it is the first entry that
overlaps. -/
theorem suggested_self_iff {name : String} :
    Suggested files packages name name ↔
      ∃ scope bare, name = scope ++ "/" ++ bare ∧ stringBegins "@" scope = true ∧
        '/' ∉ scope.toList ∧ FirstOverlap bare (installed files (packages.join scope)) bare := by
  constructor
  · intro h
    obtain ⟨s, hs, h⟩ : ∃ s, name = s ∧ Suggested files packages name s := ⟨name, rfl, h⟩
    cases h with
    | @inScope scope bare entry hscope hslash h =>
      have hentry : bare = entry := (String.append_right_inj (scope ++ "/")).mp hs
      subst hentry
      exact ⟨scope, bare, rfl, hscope, hslash, h⟩
    | @ofScope _ entry =>
      -- What is suggested is longer than the scope alone.
      have hlength := congrArg String.length hs
      have hslash : "/".length = 1 := rfl
      rw [String.length_append, String.length_append] at hlength
      omega
    | plain _ h =>
      -- An entry with the name itself is left out.
      have hmem := h.mem.1
      simp [hs] at hmem
  · rintro ⟨scope, bare, rfl, hscope, hslash, h⟩
    exact .inScope hscope hslash h

/-! ## A directory without a manifest -/

/-- A scope with one directory, which holds a file but no manifest. -/
def unfinished : FileSystem where
  entries := [(["node_modules"], .directory), (["node_modules", "@acme"], .directory),
    (["node_modules", "@acme", "ui"], .directory),
    (["node_modules", "@acme", "ui", "index.js"], .file (.text "export default 1;\n".toList))]

/-- **A missing package may be suggested in its own place**: its directory is an entry of the scope,
though without a manifest. -/
theorem missing_package_suggested : ¬ ∀ (files : FileSystem) (packages : Path) (m : Mention),
    SoundSuggestion files packages m := by
  intro hall
  -- The scope has one entry, the directory of the package itself.
  have hread : (judgeImport unfinished ["node_modules"] (importMention "@acme/ui")).toOption =
      some ((importMention "@acme/ui").reject .packageNotFound (some "@acme/ui")) := by
    decide +kernel
  have hpackage : mentionedPackage (importMention "@acme/ui") = "@acme/ui" := by decide
  have hsound := hall unfinished ["node_modules"] (importMention "@acme/ui") _
    (eq_ok_of_toOption_eq_some hread) rfl "@acme/ui" rfl
  exact hsound.1 hpackage.symm

end PlanAudit.Packages
