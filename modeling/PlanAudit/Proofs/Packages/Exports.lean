import PlanAudit.Packages.Api
import PlanAudit.Proofs.Catalog
import PlanAudit.Proofs.Fault

/-!
# Which names a declaration file exports

A file exports what it declares and lists, the names for whole files, and what the files export
whose exports it passes on.  How far they are followed is a matter of the steps from the first file
alone, not of the way in which files are met: cycles and files that are met twice make no
difference.

## Main definitions

* `DeclarationFile`: a declaration file and its text
* `PassesOn`: a file passes on the exports of another
* `Chain`: a chain of such steps, some of which enter another package
* `Unresolvable`: the place of a file whose exports are passed on cannot be told

## Main results

* `mem_exports_apiOf_iff`: the exports of a file in terms of chains, whatever the depth
* `exists_apiOf_iff`: a file has exports unless a chain leads to an unresolvable one
* `exports_iff_chain`: the same for the depth to which the library follows files
-/

namespace PlanAudit.Packages

open PlanAudit.Text

/-! ## Chains of files -/

/-- A declaration file and its text. -/
structure DeclarationFile where
  place : Path
  content : List Char

/-- Whether a specifier names another package. -/
def isBare (specifier : String) : Bool := !stringBegins "." specifier

/-- A file declares a name as an export or lists it. -/
def DeclarationFile.Names (f : DeclarationFile) (name : String) : Prop :=
  name ∈ declaredNames f.content ∨ name ∈ listedNames f.content

/-- A file passes on all exports of another under a name. -/
def DeclarationFile.NamesFile (f : DeclarationFile) (name : String) : Prop :=
  name ∈ namespaceNames f.content

section Chains

variable (files : FileSystem) (package : Path)

/-- A file passes on the exports of another, which can be read; `hop` tells whether it names the
other by a package. -/
def PassesOn (f g : DeclarationFile) (hop : Bool) : Prop :=
  ∃ specifier ∈ passedOn f.content, isBare specifier = hop ∧
    (∃ s, exportSource? files specifier f.place package false = .ok (some s) ∧ s.place = g.place) ∧
    files.readText? g.place = some g.content

/-- A chain of files each of which passes on the exports of the next, with the number of steps and
the number of those that enter another package. -/
inductive Chain : DeclarationFile → Nat → Nat → DeclarationFile → Prop
  | here (f : DeclarationFile) : Chain f 0 0 f
  | step {f g h : DeclarationFile} {hop : Bool} {steps hops : Nat} :
      PassesOn files package f g hop → Chain g steps hops h →
        Chain f (steps + 1) (hops + hop.toNat) h

/-- The place of a file whose exports are passed on cannot be told, since a manifest on the way to
it cannot be read. -/
def Unresolvable (f : DeclarationFile) : Prop :=
  ∃ specifier ∈ passedOn f.content, ∃ fault,
    exportSource? files specifier f.place package false = .error fault

end Chains

/-! ## One step -/

variable {files : FileSystem} {package : Path}

theorem foreign_of_exportSource? {specifier : String} {file : Path} {s : ExportSource}
    (h : exportSource? files specifier file package false = .ok (some s)) :
    s.foreign = isBare specifier := by
  unfold exportSource? at h
  cases hrel : stringBegins "." specifier with
  | true =>
    rw [hrel, if_pos rfl] at h
    obtain ⟨place, -, rfl⟩ := Option.map_eq_some_iff.mp (Except.ok.inj h)
    rw [isBare, hrel]
    rfl
  | false =>
    rw [hrel, if_neg Bool.false_ne_true, if_neg Bool.false_ne_true] at h
    obtain ⟨found, -, hfound⟩ := map_eq_ok_iff.mp h
    obtain ⟨place, -, rfl⟩ := Option.map_eq_some_iff.mp hfound
    rw [isBare, hrel]
    rfl

theorem exportSource?_inForeign (specifier : String) (file : Path) :
    exportSource? files specifier file package true =
      if isBare specifier then .ok none else exportSource? files specifier file package false := by
  unfold exportSource? isBare
  cases stringBegins "." specifier <;> rfl

theorem isBare_of_exportSource?_eq_error {specifier : String} {file : Path} {fault : Fault}
    (h : exportSource? files specifier file package false = .error fault) :
    isBare specifier = true := by
  unfold exportSource? at h
  cases hrel : stringBegins "." specifier with
  | true =>
    rw [hrel, if_pos rfl] at h
    cases h
  | false => rw [isBare, hrel, Bool.not_false]

theorem exportSource?_eq_some_iff {specifier : String} {file : Path} {inForeign : Bool}
    {s : ExportSource} :
    exportSource? files specifier file package inForeign = .ok (some s) ↔
      exportSource? files specifier file package false = .ok (some s) ∧
        inForeign.toNat + (isBare specifier).toNat ≤ 1 := by
  cases inForeign with
  | false => exact (and_iff_left (by cases isBare specifier <;> decide)).symm
  | true =>
    -- The one step into another package is spent, so that none may follow.
    rw [exportSource?_inForeign]
    cases isBare specifier with
    | false => exact (and_iff_left (by decide)).symm
    | true => exact ⟨fun h => (by cases h), fun h => absurd h.2 (by decide)⟩

theorem exportSource?_eq_error_iff {specifier : String} {file : Path} {inForeign : Bool}
    {fault : Fault} :
    exportSource? files specifier file package inForeign = .error fault ↔
      exportSource? files specifier file package false = .error fault ∧ inForeign = false := by
  cases inForeign with
  | false => exact (and_iff_left rfl).symm
  | true =>
    -- What can fail are names of packages, and they are not even tried in another package.
    rw [exportSource?_inForeign]
    refine ⟨fun h => ?_, fun h => absurd h.2 (by decide)⟩
    cases hbare : isBare specifier with
    | true =>
      rw [hbare] at h
      cases h
    | false =>
      rw [hbare, if_neg Bool.false_ne_true] at h
      exact absurd (isBare_of_exportSource?_eq_error h) (by simp [hbare])

/-- The exports that a file passes on from behind one specifier, where files are followed `depth`
deep from there. -/
def passedOnApi? (files : FileSystem) (package : Path) (depth : Nat) (inForeign : Bool)
    (file : Path) (specifier : String) : Except Fault (Option Api) :=
  (exportSource? files specifier file package inForeign).bind fun source =>
    match source.bind fun s => (files.readText? s.place).map fun text => (s, text) with
    | none => .ok none
    | some (s, text) => (apiOf files package depth (inForeign || s.foreign) s.place text).map some

theorem apiOf_succ (depth : Nat) (inForeign : Bool) (file : Path) (content : List Char) :
    apiOf files package (depth + 1) inForeign file content =
      ((passedOn content).mapM (passedOnApi? files package depth inForeign file)).map fun apis =>
        withPassedOn content (mergeApis (apis.filterMap id)) := rfl

theorem passedOnApi?_eq_some_iff {depth : Nat} {inForeign : Bool} {file : Path} {specifier : String}
    {api : Api} :
    passedOnApi? files package depth inForeign file specifier = .ok (some api) ↔
      ∃ s text, exportSource? files specifier file package inForeign = .ok (some s) ∧
        files.readText? s.place = some text ∧
        apiOf files package depth (inForeign || s.foreign) s.place text = .ok api := by
  unfold passedOnApi?
  rw [bind_eq_ok_iff]
  constructor
  · rintro ⟨source, hsource, hapi⟩
    cases hread : source.bind fun s => (files.readText? s.place).map fun text => (s, text) with
    | none =>
      rw [hread] at hapi
      cases hapi
    | some found =>
      obtain ⟨s, hs, hfound⟩ := Option.bind_eq_some_iff.mp hread
      obtain ⟨text, htext, rfl⟩ := Option.map_eq_some_iff.mp hfound
      rw [hread] at hapi
      obtain ⟨api', hok, heq⟩ := map_eq_ok_iff.mp hapi
      rw [Option.some.inj heq] at hok
      exact ⟨s, text, hs ▸ hsource, htext, hok⟩
  · rintro ⟨s, text, hsource, htext, hok⟩
    refine ⟨some s, hsource, ?_⟩
    simp only [Option.bind_some, htext, Option.map_some]
    exact map_eq_ok_iff.mpr ⟨api, hok, rfl⟩

theorem exists_passedOnApi?_iff {depth : Nat} {inForeign : Bool} {file : Path}
    {specifier : String} :
    (∃ found, passedOnApi? files package depth inForeign file specifier = .ok found) ↔
      (∀ fault, exportSource? files specifier file package inForeign ≠ .error fault) ∧
      ∀ s text, exportSource? files specifier file package inForeign = .ok (some s) →
        files.readText? s.place = some text →
        ∃ api, apiOf files package depth (inForeign || s.foreign) s.place text = .ok api := by
  cases hsource : exportSource? files specifier file package inForeign with
  | error fault =>
    refine ⟨?_, fun h => absurd rfl (h.1 fault)⟩
    rintro ⟨found, hfound⟩
    obtain ⟨source, h, -⟩ := bind_eq_ok_iff.mp hfound
    rw [hsource] at h
    cases h
  | ok source =>
    have hstep : passedOnApi? files package depth inForeign file specifier =
        match source.bind fun s => (files.readText? s.place).map fun text => (s, text) with
        | none => .ok none
        | some (s, text) =>
          (apiOf files package depth (inForeign || s.foreign) s.place text).map some := by
      unfold passedOnApi?
      rw [hsource]
      rfl
    rw [hstep]
    -- A file that is not there or cannot be read is passed over.
    constructor
    · rintro ⟨found, hfound⟩
      refine ⟨fun fault h => (by cases h), fun s text hs htext => ?_⟩
      rw [Except.ok.inj hs, Option.bind_some, htext] at hfound
      obtain ⟨api, hok, -⟩ := map_eq_ok_iff.mp hfound
      exact ⟨api, hok⟩
    · rintro ⟨-, hall⟩
      cases hread : source.bind fun s => (files.readText? s.place).map fun text => (s, text) with
      | none => exact ⟨none, rfl⟩
      | some found =>
        obtain ⟨s, hs, hfound⟩ := Option.bind_eq_some_iff.mp hread
        obtain ⟨text, htext, rfl⟩ := Option.map_eq_some_iff.mp hfound
        obtain ⟨api, hok⟩ := hall s text (congrArg _ hs) htext
        exact ⟨some api, map_eq_ok_iff.mpr ⟨api, hok, rfl⟩⟩

/-! ## The files behind a file -/

/-- What a file passes on are the exports of the files that one step leads to. -/
theorem exists_passedOnApi_iff_passesOn {depth : Nat} {inForeign : Bool} {f : DeclarationFile}
    {P : Api → Prop} :
    (∃ specifier ∈ passedOn f.content, ∃ api,
      passedOnApi? files package depth inForeign f.place specifier = .ok (some api) ∧ P api) ↔
      ∃ g hop, PassesOn files package f g hop ∧ inForeign.toNat + hop.toNat ≤ 1 ∧
        ∃ api, apiOf files package depth (inForeign || hop) g.place g.content = .ok api ∧
          P api := by
  constructor
  · rintro ⟨specifier, hmem, api, hpassed, hP⟩
    obtain ⟨s, text, hsource, htext, hok⟩ := passedOnApi?_eq_some_iff.mp hpassed
    obtain ⟨houtside, hhops⟩ := exportSource?_eq_some_iff.mp hsource
    rw [foreign_of_exportSource? houtside] at hok
    exact ⟨⟨s.place, text⟩, isBare specifier,
      ⟨specifier, hmem, rfl, ⟨s, houtside, rfl⟩, htext⟩, hhops, api, hok, hP⟩
  · rintro ⟨g, hop, ⟨specifier, hmem, rfl, ⟨s, houtside, hplace⟩, htext⟩, hhops, api, hok, hP⟩
    refine ⟨specifier, hmem, api, passedOnApi?_eq_some_iff.mpr ⟨s, g.content,
      exportSource?_eq_some_iff.mpr ⟨houtside, hhops⟩, hplace ▸ htext, ?_⟩, hP⟩
    rw [foreign_of_exportSource? houtside, hplace]
    exact hok

/-- Every specifier of a file has a result exactly if its places can be told and the files that one
step leads to have exports. -/
theorem forall_passedOnApi_iff {depth : Nat} {inForeign : Bool} {f : DeclarationFile} :
    (∀ specifier ∈ passedOn f.content,
      ∃ found, passedOnApi? files package depth inForeign f.place specifier = .ok found) ↔
      (inForeign = false → ¬ Unresolvable files package f) ∧
      ∀ g hop, PassesOn files package f g hop → inForeign.toNat + hop.toNat ≤ 1 →
        ∃ api, apiOf files package depth (inForeign || hop) g.place g.content = .ok api := by
  simp only [exists_passedOnApi?_iff]
  constructor
  · intro hall
    refine ⟨?_, ?_⟩
    · rintro rfl ⟨specifier, hmem, fault, hfault⟩
      exact (hall specifier hmem).1 fault hfault
    · rintro g hop ⟨specifier, hmem, rfl, ⟨s, houtside, hplace⟩, htext⟩ hhops
      have hsource := exportSource?_eq_some_iff.mpr ⟨houtside, hhops⟩
      rw [← foreign_of_exportSource? houtside, ← hplace]
      exact (hall specifier hmem).2 s g.content hsource (hplace ▸ htext)
  · rintro ⟨htold, hbelow⟩ specifier hmem
    refine ⟨fun fault hfault => ?_, fun s text hsource htext => ?_⟩
    · obtain ⟨houtside, hout⟩ := exportSource?_eq_error_iff.mp hfault
      exact htold hout ⟨specifier, hmem, fault, houtside⟩
    · obtain ⟨houtside, hhops⟩ := exportSource?_eq_some_iff.mp hsource
      rw [foreign_of_exportSource? houtside]
      exact hbelow ⟨s.place, text⟩ (isBare specifier)
        ⟨specifier, hmem, rfl, ⟨s, houtside, rfl⟩, htext⟩ hhops

/-! ## The exports of one file -/

/-- The exports are distinct, and members are known of exports only. -/
structure Api.WellFormed (api : Api) : Prop where
  nodup : api.exports.Nodup
  exported : ∀ name ∈ api.members.names, name ∈ api.exports

theorem mem_exports_mergeApis {apis : List Api} {name : String} :
    name ∈ (mergeApis apis).exports ↔ ∃ api ∈ apis, name ∈ api.exports :=
  mem_firstPerKey_id.trans List.mem_flatMap

theorem names_ownMembers {content : List Char} {exports : List String}
    {known : Catalog (Catalog Types.Member)} (h : ∀ name ∈ known.names, name ∈ exports) :
    ∀ name ∈ (ownMembers content exports known).names, name ∈ exports := by
  -- Interfaces and classes are added in the same way, each only if its name is an export.
  have hfold : ∀ (read : List Char → Catalog Types.Member) (found : List Match)
      (c : Catalog (Catalog Types.Member)), (∀ name ∈ c.names, name ∈ exports) →
      ∀ name ∈ (found.foldl (fun c m => if exports.contains (m.name 1) then
        c.insert (m.name 1) (read (m.group 2)) else c) c).names, name ∈ exports := by
    intro read found
    induction found with
    | nil => exact fun c hc => hc
    | cons m rest ih =>
      intro c hc
      refine ih _ ?_
      dsimp only
      split
      · rename_i hexport
        intro name hname
        rw [Catalog.insert, Catalog.names_alter] at hname
        split at hname
        · exact hc name hname
        · rcases List.mem_append.mp hname with hname | hname
          · exact hc name hname
          · rw [List.mem_singleton.mp hname]
            exact List.contains_iff_mem.mp hexport
      · exact hc
  exact hfold Types.classMembers _ _ (hfold Types.objectMembers _ _ h)

theorem wellFormed_own (content : List Char) :
    let exports := firstPerKey id (declaredNames content ++ listedNames content)
    Api.WellFormed ⟨exports, ownMembers content exports .empty⟩ where
  nodup := nodup_firstPerKey_id _
  exported := names_ownMembers fun _ h => absurd h List.not_mem_nil

theorem wellFormed_mergeApis {apis : List Api} (h : ∀ api ∈ apis, api.WellFormed) :
    (mergeApis apis).WellFormed where
  nodup := nodup_firstPerKey_id _
  exported := by
    intro name hname
    rcases Catalog.mem_names_foldl_insert.mp hname with hname | hname
    · exact absurd hname List.not_mem_nil
    · obtain ⟨entry, hentry, rfl⟩ := List.mem_map.mp hname
      obtain ⟨api, hapi, hmem⟩ := List.mem_flatMap.mp hentry
      exact mem_exports_mergeApis.mpr
        ⟨api, hapi, (h api hapi).exported _ (List.mem_map_of_mem hmem)⟩

theorem mem_exports_withPassedOn {content : List Char} {below : Api} {name : String} :
    name ∈ (withPassedOn content below).exports ↔
      ((name ∈ declaredNames content ∨ name ∈ listedNames content) ∨ name ∈ below.exports) ∨
        name ∈ namespaceNames content := by
  rw [withPassedOn, mem_firstPerKey_id, List.mem_append, List.mem_append, List.mem_append]

theorem wellFormed_withPassedOn {content : List Char} {below : Api} (h : below.WellFormed) :
    (withPassedOn content below).WellFormed where
  nodup := nodup_firstPerKey_id _
  exported := names_ownMembers fun name hname =>
    mem_exports_withPassedOn.mpr (.inl (.inr (h.exported name hname)))

/-! ## Chains from a file -/

section Exported

variable (files package)

/-- A chain leads to a file that names an export, where at most `depth` steps are followed, and at
most one into another package; for whole files one step less. -/
def Exported (depth : Nat) (inForeign : Bool) (f : DeclarationFile) (name : String) : Prop :=
  ∃ steps hops g, Chain files package f steps hops g ∧ inForeign.toNat + hops ≤ 1 ∧
    (steps ≤ depth ∧ g.Names name ∨ steps < depth ∧ g.NamesFile name)

end Exported

theorem toNat_or {a b : Bool} (h : a.toNat + b.toNat ≤ 1) :
    (a || b).toNat = a.toNat + b.toNat := by
  cases a <;> cases b <;> simp_all

theorem exported_zero {inForeign : Bool} {f : DeclarationFile} {name : String} :
    Exported files package 0 inForeign f name ↔ f.Names name := by
  constructor
  · rintro ⟨steps, hops, g, hchain, -, ⟨hsteps, hname⟩ | ⟨hsteps, -⟩⟩
    · cases hchain with
      | here => exact hname
      | step => exact absurd hsteps (Nat.not_succ_le_zero _)
    · exact absurd hsteps (Nat.not_lt_zero _)
  · intro hname
    exact ⟨0, 0, f, .here f, by cases inForeign <;> decide, .inl ⟨Nat.le_refl 0, hname⟩⟩

/-- A chain ends at once or begins with a step. -/
theorem exported_succ {depth : Nat} {inForeign : Bool} {f : DeclarationFile} {name : String} :
    Exported files package (depth + 1) inForeign f name ↔
      (f.Names name ∨ ∃ g hop, PassesOn files package f g hop ∧ inForeign.toNat + hop.toNat ≤ 1 ∧
        Exported files package depth (inForeign || hop) g name) ∨ f.NamesFile name := by
  constructor
  · rintro ⟨steps, hops, h, hchain, hhops, hname⟩
    cases hchain with
    | here =>
      rcases hname with ⟨-, hname⟩ | ⟨-, hname⟩
      · exact .inl (.inl hname)
      · exact .inr hname
    | @step _ g _ hop steps hops hpass hrest =>
      -- The first step may enter another package only if none was entered before.
      have hhop : inForeign.toNat + hop.toNat ≤ 1 := by omega
      refine .inl (.inr ⟨g, hop, hpass, hhop, steps, hops, h, hrest, ?_, ?_⟩)
      · rw [toNat_or hhop]
        omega
      · exact hname.imp (And.imp_left Nat.le_of_succ_le_succ) (And.imp_left Nat.lt_of_succ_lt_succ)
  · rintro ((hname | ⟨g, hop, hpass, hhop, steps, hops, h, hrest, hhops, hname⟩) | hname)
    · exact ⟨0, 0, f, .here f, by cases inForeign <;> decide, .inl ⟨Nat.zero_le _, hname⟩⟩
    · rw [toNat_or hhop] at hhops
      exact ⟨steps + 1, hops + hop.toNat, h, .step hpass hrest, by omega,
        hname.imp (And.imp_left Nat.succ_le_succ) (And.imp_left Nat.succ_lt_succ)⟩
    · exact ⟨0, 0, f, .here f, by cases inForeign <;> decide, .inr ⟨Nat.succ_pos _, hname⟩⟩

/-! ## The exports of a file and those behind it -/

/-- **The exports of a file** are the names that chains of files lead to. -/
theorem mem_exports_apiOf_iff {depth : Nat} {inForeign : Bool} {f : DeclarationFile} {api : Api}
    (h : apiOf files package depth inForeign f.place f.content = .ok api) {name : String} :
    name ∈ api.exports ↔ Exported files package depth inForeign f name := by
  induction depth generalizing inForeign f api with
  | zero =>
    rw [exported_zero, ← Except.ok.inj h]
    exact mem_firstPerKey_id.trans List.mem_append
  | succ depth ih =>
    rw [apiOf_succ] at h
    obtain ⟨apis, hapis, rfl⟩ := map_eq_ok_iff.mp h
    -- What is passed on comes from one step, and behind it the depth is one less.
    have hbelow : (∃ sub ∈ apis.filterMap id, name ∈ sub.exports) ↔
        ∃ g hop, PassesOn files package f g hop ∧ inForeign.toNat + hop.toNat ≤ 1 ∧
          Exported files package depth (inForeign || hop) g name := by
      calc (∃ sub ∈ apis.filterMap id, name ∈ sub.exports)
          ↔ ∃ specifier ∈ passedOn f.content, ∃ sub, passedOnApi? files package depth inForeign
              f.place specifier = .ok (some sub) ∧ name ∈ sub.exports := by
            simp only [List.mem_filterMap, id]
            constructor
            · rintro ⟨sub, ⟨_, hmem, rfl⟩, hname⟩
              obtain ⟨specifier, hspec, hsub⟩ := exists_mem_of_mapM_eq_ok hapis hmem
              exact ⟨specifier, hspec, sub, hsub, hname⟩
            · rintro ⟨specifier, hspec, sub, hsub, hname⟩
              obtain ⟨found, hmem, hfound⟩ := mem_of_mapM_eq_ok hapis hspec
              rw [hsub] at hfound
              exact ⟨sub, ⟨found, hmem, (Except.ok.inj hfound).symm⟩, hname⟩
        _ ↔ _ := exists_passedOnApi_iff_passesOn
        _ ↔ _ := by
            constructor
            · rintro ⟨g, hop, hpass, hhop, sub, hsub, hname⟩
              exact ⟨g, hop, hpass, hhop, (ih hsub).mp hname⟩
            · -- Since the file has exports, so has every file behind it.
              rintro ⟨g, hop, hpass, hhop, hname⟩
              obtain ⟨sub, hsub⟩ := (forall_passedOnApi_iff.mp fun specifier hspec => by
                obtain ⟨found, -, hfound⟩ := mem_of_mapM_eq_ok hapis hspec
                exact ⟨found, hfound⟩).2 g hop hpass hhop
              exact ⟨g, hop, hpass, hhop, sub, hsub, (ih hsub).mpr hname⟩
    rw [mem_exports_withPassedOn, mem_exports_mergeApis, hbelow, exported_succ]
    rfl

/-- **The exports of a file are well formed.** -/
theorem wellFormed_apiOf {depth : Nat} {inForeign : Bool} {f : DeclarationFile} {api : Api}
    (h : apiOf files package depth inForeign f.place f.content = .ok api) : api.WellFormed := by
  induction depth generalizing inForeign f api with
  | zero => exact Except.ok.inj h ▸ wellFormed_own f.content
  | succ depth ih =>
    rw [apiOf_succ] at h
    obtain ⟨apis, hapis, rfl⟩ := map_eq_ok_iff.mp h
    refine wellFormed_withPassedOn (wellFormed_mergeApis fun sub hsub => ?_)
    obtain ⟨found, hmem, hfound⟩ := List.mem_filterMap.mp hsub
    obtain ⟨specifier, -, hpassed⟩ := exists_mem_of_mapM_eq_ok hapis hmem
    rw [id] at hfound
    rw [hfound] at hpassed
    obtain ⟨s, text, -, -, hok⟩ := passedOnApi?_eq_some_iff.mp hpassed
    exact ih (f := ⟨s.place, text⟩) hok

/-- **A file has exports** unless a chain within the package leads to a file of which they cannot
be told what it passes on. -/
theorem exists_apiOf_iff {depth : Nat} {inForeign : Bool} {f : DeclarationFile} :
    (∃ api, apiOf files package depth inForeign f.place f.content = .ok api) ↔
      ∀ steps hops g, Chain files package f steps hops g → steps < depth →
        inForeign.toNat + hops = 0 → ¬ Unresolvable files package g := by
  induction depth generalizing inForeign f with
  | zero => exact ⟨fun _ _ _ _ _ hsteps => absurd hsteps (Nat.not_lt_zero _), fun _ => ⟨_, rfl⟩⟩
  | succ depth ih =>
    -- A file has exports if there is a result behind each of its specifiers.
    have hpass : (∃ api, apiOf files package (depth + 1) inForeign f.place f.content = .ok api) ↔
        ∀ specifier ∈ passedOn f.content,
          ∃ found, passedOnApi? files package depth inForeign f.place specifier = .ok found := by
      rw [apiOf_succ]
      constructor
      · rintro ⟨api, hapi⟩ specifier hspec
        obtain ⟨apis, hapis, -⟩ := map_eq_ok_iff.mp hapi
        obtain ⟨found, -, hfound⟩ := mem_of_mapM_eq_ok hapis hspec
        exact ⟨found, hfound⟩
      · intro hall
        obtain ⟨apis, hapis⟩ := exists_mapM_eq_ok hall
        exact ⟨_, map_eq_ok_iff.mpr ⟨apis, hapis, rfl⟩⟩
    rw [hpass, forall_passedOnApi_iff]
    constructor
    · rintro ⟨htold, hbelow⟩ steps hops h hchain hsteps hhops
      cases hchain with
      | here => exact htold (Bool.toNat_eq_zero.mp hhops)
      | @step _ g _ hop steps hops hstep hrest =>
        have hhop : inForeign.toNat + hop.toNat ≤ 1 := by omega
        refine ih.mp (hbelow g hop hstep hhop) steps hops h hrest (Nat.lt_of_succ_lt_succ hsteps) ?_
        rw [toNat_or hhop]
        omega
    · intro hall
      refine ⟨fun hout => hall 0 0 f (.here f) (Nat.succ_pos _) (by rw [hout]; rfl), ?_⟩
      intro g hop hstep hhop
      refine ih.mpr fun steps hops h hrest hsteps hhops => ?_
      rw [toNat_or hhop] at hhops
      exact hall (steps + 1) (hops + hop.toNat) h (.step hstep hrest) (Nat.succ_lt_succ hsteps)
        (by omega)

/-- **The exports of a declaration file**, if there are any, are the names that a file declares or
lists which is at most three steps away, and the names for whole files in a file at most two steps
away, where one step at most enters another package.  They are distinct, and members are known of
them only.  There are none exactly if two steps or fewer within the package lead to a file of which
it cannot be told what it passes on. -/
theorem exports_iff_chain (files : FileSystem) (package : Path) (f : DeclarationFile) :
    (∀ api, apiOf files package maxExportDepth false f.place f.content = .ok api →
      (∀ name, name ∈ api.exports ↔ ∃ steps hops g, Chain files package f steps hops g ∧ hops ≤ 1 ∧
        (steps ≤ 3 ∧ g.Names name ∨ steps ≤ 2 ∧ g.NamesFile name)) ∧
      api.exports.Nodup ∧ ∀ name ∈ api.members.names, name ∈ api.exports) ∧
    ((∃ api, apiOf files package maxExportDepth false f.place f.content = .ok api) ↔
      ∀ steps g, Chain files package f steps 0 g → steps ≤ 2 →
        ¬ Unresolvable files package g) := by
  refine ⟨fun api h => ⟨fun name => ?_, (wellFormed_apiOf h).nodup, (wellFormed_apiOf h).exported⟩,
    ?_⟩
  · rw [mem_exports_apiOf_iff h]
    simp only [Exported, Bool.toNat_false, Nat.zero_add, maxExportDepth, Nat.lt_succ_iff]
  · rw [exists_apiOf_iff]
    simp only [Bool.toNat_false, Nat.zero_add, maxExportDepth, Nat.lt_succ_iff]
    constructor
    · intro h steps g hchain hsteps
      exact h steps 0 g hchain hsteps rfl
    · rintro h steps hops g hchain hsteps rfl
      exact h steps g hchain hsteps

/-- A file that declares a name, lists two, one of them a type, and passes on the exports of the
file `rest` beside it. -/
def circularEntry : DeclarationFile :=
  ⟨["node_modules", "a", "index.d.ts"],
    ("export const one: number;\nexport \x7b inner as outer, type Hidden \x7d;\n" ++
      "export * from './rest';\n").toList⟩

/-- The file `rest` passes on the exports of the first in turn, and those of a package, which passes
on those of another package. -/
def circularTypings : FileSystem :=
  ⟨[(["node_modules"], .directory),
    (["node_modules", "a"], .directory),
    (circularEntry.place, .file (.text circularEntry.content)),
    (["node_modules", "a", "rest.d.ts"], .file (.text
      "export * from './index';\nexport * from 'b';\nexport * as whole from 'c';\n".toList)),
    (["node_modules", "b"], .directory),
    (["node_modules", "b", "package.json"], .file (.text "\x7b\x7d".toList)),
    (["node_modules", "b", "index.d.ts"], .file (.text
      ("export interface Two \x7b\n  size: number;\n\x7d\nexport \x7b\n  four\n\x7d;\n" ++
        "export * from 'c';\n").toList)),
    (["node_modules", "c"], .directory),
    (["node_modules", "c", "package.json"], .file (.text "\x7b\x7d".toList)),
    (["node_modules", "c", "index.d.ts"], .file (.text "export const three: number;\n".toList))]⟩

/-- The package is entered, and the other package behind it is not. -/
theorem exports_iff_chain_circular :
    ∃ api, apiOf circularTypings ["node_modules", "a"] maxExportDepth false circularEntry.place
        circularEntry.content = .ok api ∧
      api.exports = ["one", "outer", "Two", "four", "whole"] ∧ api.members.names = ["Two"] ∧
      (∃ steps hops g, Chain circularTypings ["node_modules", "a"] circularEntry steps hops g ∧
        hops ≤ 1 ∧ (steps ≤ 3 ∧ g.Names "four" ∨ steps ≤ 2 ∧ g.NamesFile "four")) ∧
      ¬ ∃ steps hops g, Chain circularTypings ["node_modules", "a"] circularEntry steps hops g ∧
        hops ≤ 1 ∧ (steps ≤ 3 ∧ g.Names "three" ∨ steps ≤ 2 ∧ g.NamesFile "three") := by
  have hfound : ((apiOf circularTypings ["node_modules", "a"] maxExportDepth false
      circularEntry.place circularEntry.content).toOption.map fun api =>
        (api.exports, api.members.names)) =
      some (["one", "outer", "Two", "four", "whole"], ["Two"]) := by
    decide +kernel
  obtain ⟨api, hapi, hnames⟩ := Option.map_eq_some_iff.mp hfound
  obtain ⟨hexports, hmembers⟩ := Prod.mk.inj hnames
  have hok := eq_ok_of_toOption_eq_some hapi
  have hchain := ((exports_iff_chain _ _ circularEntry).1 api hok).1
  refine ⟨api, hok, hexports, hmembers, (hchain "four").mp ?_, fun h => ?_⟩
  · rw [hexports]
    decide
  · have hthree := (hchain "three").mpr h
    rw [hexports] at hthree
    exact absurd hthree (by decide)

end PlanAudit.Packages
