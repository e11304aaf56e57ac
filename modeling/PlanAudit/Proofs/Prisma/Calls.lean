import Mathlib.Data.List.DropRight
import PlanAudit.Prisma.Judgement
import PlanAudit.Proofs.Plan.Block
import PlanAudit.Proofs.Prisma.CallCode
import PlanAudit.Proofs.Prisma.ReadBack

/-!
# Plans with one call on a client

A plan with one block of code, which is a call of a client method on one line, mentions the model,
the method, the fields and the relations of the call, each once, and its fields are judged by the
model.  The names of a program may hold dollar signs, and keys are read with them; clients and
accessors are not.  A client counts as far as a name stands at its end, so that none is found if it
ends in a dollar sign, and no call is found whose accessor holds one.

## Main definitions

* `ClientCall`: the call
* `ClientCall.ReadFrom`: what the plan mentions is what the call is about
* `CallCode.Misses`: the finding that a field does not exist

## Main results

* `CallCode.perm_findings`: the fields that are found not to exist
* `ClientCall.readFrom_plan_iff`: when the call is read from the plan
-/

namespace PlanAudit.Prisma

open Text Pattern Plan

/-! ## Fields that the model does not have -/

namespace CallCode

section Findings

variable (c : CallCode) {schema : Schema} {model : Model} {m : Mention} {r : Reference}

/-- The reference is the finding that the field `k` does not exist. -/
def Misses (r : Reference) (k : String) : Prop :=
  r.evidence = (k, .field, false, some .field) ∧ r.name = some k

theorem contextModel?_eq {accessor : String} (hmodel : schema.modelFor? accessor = some model) :
    contextModel? schema accessor = some model := by
  rw [contextModel?, hmodel, Option.some_or]

theorem judge?_fieldMention {accessor : String} (hmodel : schema.modelFor? accessor = some model)
    (n : Nat) (k : String) :
    judge? schema (fieldMention n accessor k) =
      some (judgeField model (fieldMention n accessor k)) := by
  change (contextModel? schema accessor).map _ = _
  rw [contextModel?_eq hmodel]
  rfl

/-- **What is rejected as a field** is a key that stands for a field and is not one. -/
theorem misses_of_judge? (hmodel : schema.modelFor? c.accessor.string = some model)
    (hm : c.Mentioned m) (hr : judge? schema m = some r) (hcategory : r.category = some .field) :
    ∃ k ∈ c.argument.fieldKeys, model.fields.contains k = false ∧ Misses r k := by
  cases hm with
  | model n =>
    obtain rfl := Option.some.inj hr
    unfold judgeModel at hcategory
    dsimp only at hcategory
    split at hcategory <;> cases hcategory
  | method n =>
    obtain rfl := Option.some.inj hr
    unfold judgeMethod at hcategory
    split at hcategory <;> cases hcategory
  | field n hk =>
    rename_i k
    rw [judge?_fieldMention hmodel] at hr
    obtain rfl := Option.some.inj hr
    unfold judgeField at hcategory ⊢
    split at hcategory
    · cases hcategory
    · rename_i hfree
      rw [if_neg hfree]
      exact ⟨k, hk, Bool.eq_false_iff.mpr hfree, rfl, rfl⟩
  | relation n hk =>
    obtain ⟨_, -, rfl⟩ := Option.map_eq_some_iff.mp hr
    unfold judgeRelation at hcategory
    split at hcategory
    · cases hcategory
    · split at hcategory <;> cases hcategory

/-- Each of the keys is mentioned. -/
theorem exists_fieldMention {plan : List Char} (hplan : Plan.codeRegions plan = c.chars)
    {k : String} (hk : k ∈ c.argument.fieldKeys) :
    ∃ n, fieldMention n c.accessor.string k ∈ mentions plan := by
  have hsubject : (Kind.field, some c.accessor.string, some k) ∈ (mentions plan).map subject := by
    rw [(c.perm_subjects hplan).mem_iff, List.mem_dedup]
    simp [callSubjects, hk]
  obtain ⟨m, hm, hsame⟩ := List.mem_map.mp hsubject
  obtain ⟨all, hmentions, hall, -⟩ := c.exists_mentions_eq hplan
  have hmentioned := hall m (mem_of_mem_firstPerKey _ (hmentions ▸ hm))
  cases hmentioned with
  | field n hk' =>
    obtain rfl : _ = k := Option.some.inj (congrArg (·.2.2) hsame)
    exact ⟨n, hm⟩
  | model n => cases hsame
  | method n => cases hsame
  | relation n hk' => cases hsame

/-- **The findings about fields** are the keys that stand for fields and are none of the model, each
once. -/
theorem perm_findings {plan : List Char} (hplan : Plan.codeRegions plan = c.chars)
    (hmodel : schema.modelFor? c.accessor.string = some model) :
    (((analyze plan schema).filter (·.category == some .field)).map (·.name)).Perm
      ((c.argument.fieldKeys.filter fun k => !model.fields.contains k).map some).dedup := by
  obtain ⟨all, hmentions, hall, -⟩ := c.exists_mentions_eq hplan
  have hmentioned : ∀ m ∈ mentions plan, c.Mentioned m := fun m hm =>
    hall m (mem_of_mem_firstPerKey _ (hmentions ▸ hm))
  have hmisses : ∀ r ∈ (mentions plan).filterMap (judge? schema),
      (r.category == some .field) = true →
        ∃ k ∈ c.argument.fieldKeys, model.fields.contains k = false ∧ Misses r k := by
    intro r hr hcategory
    obtain ⟨m, hm, hjudge⟩ := List.mem_filterMap.mp hr
    exact c.misses_of_judge? hmodel (hmentioned m hm) hjudge (beq_iff_eq.mp hcategory)
  refine perm_map_filter_firstPerKey _ (fun r hr hcategory r' hr' => ?_) fun name => ?_
  · obtain ⟨k, -, -, hevidence, hname⟩ := hmisses r hr hcategory
    constructor
    · intro hsame
      have hcategory' : (r'.category == some .field) = true := by
        have h := congrArg (·.2.2.2) (hsame.trans hevidence)
        exact beq_iff_eq.mpr h
      obtain ⟨k', -, -, hevidence', hname'⟩ := hmisses r' hr' hcategory'
      rw [hevidence', hevidence] at hsame
      exact ⟨hcategory', by rw [hname', hname, (Prod.mk.inj hsame).1]⟩
    · rintro ⟨hcategory', hsame⟩
      obtain ⟨k', -, -, hevidence', hname'⟩ := hmisses r' hr' hcategory'
      rw [hname', hname] at hsame
      rw [hevidence', hevidence, Option.some.inj hsame]
  · constructor
    · intro h
      obtain ⟨r, hr, rfl⟩ := List.mem_map.mp h
      obtain ⟨hr, hcategory⟩ := List.mem_filter.mp hr
      obtain ⟨k, hk, hfree, -, hname⟩ := hmisses r hr hcategory
      exact List.mem_map.mpr ⟨k, List.mem_filter.mpr ⟨hk, by rw [hfree]; rfl⟩, hname.symm⟩
    · intro h
      obtain ⟨k, hk, rfl⟩ := List.mem_map.mp h
      obtain ⟨hk, hfree⟩ := List.mem_filter.mp hk
      obtain ⟨n, hn⟩ := c.exists_fieldMention hplan hk
      have hrejected : judgeField model (fieldMention n c.accessor.string k) =
          (fieldMention n c.accessor.string k).reject .field (suggest k model.fields.names) :=
        if_neg (Bool.eq_false_iff.mp (Bool.not_eq_true' _ ▸ hfree))
      refine List.mem_map.mpr ⟨_, List.mem_filter.mpr ⟨List.mem_filterMap.mpr ⟨_, hn,
        judge?_fieldMention hmodel n k⟩, ?_⟩, ?_⟩
      · rw [hrejected]
        rfl
      · rw [hrejected]
        rfl

end Findings

end CallCode

/-! ## The call in a plan -/

/-- The text of a call. -/
def callText (client accessor : KeyName) (method : String) (argument : Members) : List Char :=
  client.chars ++ '.' :: (accessor.chars ++ '.' :: (openArgument method ++
    (argument.chars ++ ['}', ')'])))

/-- A call of a client method, written on one line. -/
structure ClientCall where
  /-- The client. -/
  client : KeyName
  /-- The accessor of the model. -/
  accessor : KeyName
  /-- The method. -/
  method : String
  method_mem : method ∈ clientMethods
  /-- The argument. -/
  argument : Members
  keys : ∀ k ∈ argument.names, k ∈ argumentKeys
  short : (callText client accessor method argument).length < lookback

namespace ClientCall

variable (call : ClientCall) (b : Plan.Block)

/-- The characters of the call. -/
def chars : List Char := callText call.client call.accessor call.method call.argument

/-- From the plan the model, the method, the fields and the relations of the call are read, each
once, and its fields are judged as the model has them. -/
structure ReadFrom (plan : List Char) : Prop where
  mentions : ((mentions plan).map subject).Perm
    (callSubjects call.accessor.string call.method call.argument).dedup
  findings : ∀ (schema : Schema) (model : Model),
    schema.modelFor? call.accessor.string = some model →
      (((analyze plan schema).filter (·.category == some .field)).map (·.name)).Perm
        ((call.argument.fieldKeys.filter fun k => !model.fields.contains k).map some).dedup

/-- The client ends in a part of a name, and the accessor is a name. -/
def Named : Prop := (∀ x ∈ call.client.chars.getLast?, x ≠ '$') ∧ '$' ∉ call.accessor.chars

section Names

variable {call}

theorem isWord_of_isKeyChar {x : Char} (h : isKeyChar x = true) (hx : x ≠ '$') :
    isWord x = true := by
  simpa [isKeyChar, hx] using h

/-- A line that ends in front of a name is a margin. -/
theorem margin_line {u w : List Char} (hu : '.' ∉ u ∧ ':' ∉ u) (hw : ∀ c ∈ w, isKeyChar c = true)
    (hlast : ∀ x ∈ w.getLast?, isWord x = false) : Margin (u ++ '\n' :: w) := by
  have hfree : ∀ {x : Char}, isKeyChar x = false → x ∉ w := fun hx h => by
    rw [hw _ h] at hx
    cases hx
  refine ⟨⟨?_, ?_⟩, ?_⟩
  · simp [hu.1, hfree (x := '.') (by decide)]
  · cases hw : w.getLast? with
    | none => exact ⟨'\n', by simp [List.getLast?_append, List.getLast?_cons, hw], by decide⟩
    | some x => exact ⟨x, by simp [List.getLast?_append, List.getLast?_cons, hw], hlast x hw⟩
  · simp [hu.2, hfree (x := ':') (by decide)]

/-- A key whose last character is part of a name ends in a name. -/
theorem exists_word_end (k : KeyName) (h : ∀ x ∈ k.chars.getLast?, x ≠ '$') :
    ∃ (u : List Char) (q : Word), k.chars = u ++ q.chars ∧
      (∀ c ∈ u, isKeyChar c = true) ∧ ∀ x ∈ u.getLast?, isWord x = false := by
  have hsplit := List.rdropWhile_append_rtakeWhile (p := isWord) (l := k.chars)
  have hne : k.chars.rtakeWhile isWord ≠ [] := by
    rw [Ne, List.rtakeWhile_eq_nil_iff]
    intro hnone
    have hlast := List.getLast?_eq_some_getLast k.ne_nil
    exact hnone k.ne_nil (isWord_of_isKeyChar (k.isKey _ (List.getLast_mem k.ne_nil))
      (h _ hlast))
  refine ⟨k.chars.rdropWhile isWord, ⟨k.chars.rtakeWhile isWord, hne,
    fun c hc => List.mem_rtakeWhile_imp hc⟩, hsplit.symm, fun c hc => k.isKey c ?_, ?_⟩
  · exact (List.rdropWhile_prefix isWord k.chars).subset hc
  · intro x hx
    have hnonempty : k.chars.rdropWhile isWord ≠ [] := fun hnil => by
      rw [hnil] at hx
      cases hx
    rw [List.getLast?_eq_some_getLast hnonempty] at hx
    have hlast := List.rdropWhile_last_not isWord k.chars hnonempty
    rw [Option.some.inj hx] at hlast
    simpa using hlast

end Names

theorem not_mem_chars : '\x60' ∉ call.chars := by
  have hclient : '\x60' ∉ call.client.chars := KeyName.not_mem _ (by decide)
  have haccessor : '\x60' ∉ call.accessor.chars := KeyName.not_mem _ (by decide)
  have hmethod : '\x60' ∉ call.method.toList := fun h =>
    absurd ((isWord_of_mem_clientMethods call.method call.method_mem).2 _ h) (by decide)
  have hargument : '\x60' ∉ call.argument.chars :=
    call.argument.not_mem_chars (by decide) (by decide)
  simp [chars, callText, openArgument, hclient, haccessor, hmethod, hargument]

/-- **The code of the plan** holds the call twice. -/
theorem exists_callCode (hnamed : call.Named) :
    ∃ c : CallCode, Plan.codeRegions (b.plan call.chars) = c.chars ∧
      c.accessor.string = call.accessor.string ∧ c.method = call.method ∧
      c.argument = call.argument := by
  obtain ⟨u, q, hclient, hu, hlast⟩ := exists_word_end call.client hnamed.1
  let a : Word := ⟨call.accessor.chars, call.accessor.ne_nil, fun x hx =>
    isWord_of_isKeyChar (call.accessor.isKey x hx) fun h => hnamed.2 (h ▸ hx)⟩
  have htag : ∀ x, isWord x = false → x ∉ b.tag := fun x hx h => by
    rw [b.tag_word x h] at hx
    cases hx
  have hdot := htag '.' (by decide)
  have hcolon := htag ':' (by decide)
  have hshort : (Prisma.anchor q a ++ (openArgument call.method ++ call.argument.chars)).length ≤
      lookback := by
    have h := call.short
    simp only [callText, hclient, List.length_append, List.length_cons] at h
    simp only [Prisma.anchor, List.length_append, List.length_cons, List.length_nil, a]
    omega
  let c : CallCode :=
    { client := q
      accessor := a
      method := call.method
      method_mem := call.method_mem
      argument := call.argument
      keys := call.keys
      short := hshort
      front := (fenceChars ++ b.tag) ++ '\n' :: u
      front_margin := margin_line (by simp [fenceChars, hdot, hcolon]) hu hlast
      between := ('\n' :: fenceChars ++ '\n' :: b.tag) ++ '\n' :: u
      between_margin := margin_line (by simp [fenceChars, hdot, hcolon]) hu hlast }
  refine ⟨c, ?_, rfl, rfl, rfl⟩
  rw [b.codeRegions_plan call.not_mem_chars]
  simp [c, a, CallCode.chars, CallCode.anchor, Prisma.anchor, Plan.Block.inside, chars, callText,
    hclient]

/-- No call is found where no name stands. -/
theorem avoids_call (hnamed : ¬ call.Named) {w t : List Char} (hw : '.' ∉ w) :
    Avoids Dotted ((w ++ call.client.chars ++ ['.']) ++ (call.accessor.chars ++ ['.']))
      (openArgument call.method ++ t) := by
  have hmethod := dotless_openArgument call.method_mem
  have haccessor : '.' ∉ call.accessor.chars := KeyName.not_mem _ (by decide)
  have hclient : '.' ∉ w ++ call.client.chars := fun h =>
    (List.mem_append.mp h).elim hw (KeyName.not_mem _ (by decide))
  refine Avoids.append ?_ (avoids_of_not_dotName haccessor fun r =>
    not_dotName_of_nonword (x := '(') hmethod (by simp [openArgument]) (by decide))
  by_cases hdollar : '$' ∈ call.accessor.chars
  · rw [List.append_assoc call.accessor.chars]
    exact avoids_of_not_dotName hclient fun r =>
      not_dotName_of_nonword haccessor hdollar (by decide)
  · have hlast : call.client.chars.getLast? = some '$' := by
      by_contra hne
      exact hnamed ⟨fun x hx heq => hne (heq ▸ hx), hdollar⟩
    have hapart : Apart (w ++ call.client.chars) :=
      ⟨hclient, '$', by simp [List.getLast?_append, hlast], by decide⟩
    exact hapart.avoids.append avoids_dot

/-- Where no name stands, the plan mentions nothing. -/
theorem mentions_eq_nil_of_not_named (hnamed : ¬ call.Named) :
    Prisma.mentions (b.plan call.chars) = [] := by
  have htag : '.' ∉ b.tag := fun h => absurd (b.tag_word _ h) (by decide)
  have hargument : '.' ∉ call.argument.chars :=
    call.argument.not_mem_chars (by decide) (by decide)
  have hmethod := dotless_openArgument call.method_mem
  let body := call.argument.chars ++ ['}', ')', '\n']
  let margin := fenceChars ++ '\n' :: (b.tag ++ ['\n'])
  have hbody : '.' ∉ openArgument call.method ++ body := by simp [body, hmethod, hargument]
  have hmargin : Apart (openArgument call.method ++ (body ++ margin)) := by
    have hsplit : openArgument call.method ++ (body ++ margin) =
        (openArgument call.method ++ (body ++ (fenceChars ++ '\n' :: b.tag))) ++ ['\n'] := by
      simp [margin]
    refine ⟨by simp [body, margin, hmethod, hargument, fenceChars, htag], '\n', ?_, by decide⟩
    rw [hsplit, List.getLast?_concat]
  have hcode : Plan.codeRegions (b.plan call.chars) =
      ((fenceChars ++ b.tag ++ ['\n'] ++ call.client.chars ++ ['.']) ++
        (call.accessor.chars ++ ['.'])) ++ ((openArgument call.method ++ (body ++ margin)) ++
          ((([] ++ call.client.chars ++ ['.']) ++ (call.accessor.chars ++ ['.'])) ++
            (openArgument call.method ++ body))) := by
    rw [b.codeRegions_plan call.not_mem_chars]
    simp [body, margin, Plan.Block.inside, chars, callText]
  have hfront : '.' ∉ fenceChars ++ b.tag ++ ['\n'] := by simp [fenceChars, htag]
  refine mentions_eq_nil ?_
  rw [hcode]
  refine Avoids.append ?_ (hmargin.avoids.append (Avoids.append ?_ (avoids_of_dotless hbody)))
  · simpa using call.avoids_call hnamed hfront
  · simpa using call.avoids_call hnamed List.not_mem_nil

/-- **When a call is read from the plan**: exactly if the client does not end in a dollar sign and
the accessor holds none. -/
theorem readFrom_plan_iff : call.ReadFrom (b.plan call.chars) ↔
    (∀ x ∈ call.client.chars.getLast?, x ≠ '$') ∧ '$' ∉ call.accessor.chars := by
  constructor
  · intro h
    by_contra hnamed
    have hnone := h.mentions
    rw [call.mentions_eq_nil_of_not_named b hnamed, List.map_nil, List.nil_perm] at hnone
    have hmodel : (Kind.model, some call.accessor.string, (none : Option String)) ∈
        (callSubjects call.accessor.string call.method call.argument).dedup :=
      List.mem_dedup.mpr List.mem_cons_self
    rw [hnone] at hmodel
    cases hmodel
  · intro hnamed
    obtain ⟨c, hplan, haccessor, hmethod, hargument⟩ := call.exists_callCode b hnamed
    refine ⟨?_, fun schema model hmodel => ?_⟩
    · rw [← haccessor, ← hmethod, ← hargument]
      exact c.perm_subjects hplan
    · rw [← hargument]
      exact c.perm_findings hplan (haccessor ▸ hmodel)

end ClientCall

/-! ## A client that ends in a dollar sign -/

/-- A key behind a space, with a space in front of its value. -/
def spacedKey (key : KeyName) : KeyText := ⟨.spaces 1, key, .spaces 0, .spaces 1⟩

/-- `{ where: { id: 1 } }` without its braces. -/
def whereId : Members :=
  .last (spacedKey ⟨"where".toList, by decide, by decide⟩)
    (.object (.last (spacedKey ⟨['i', 'd'], by decide, by decide⟩)
      (.digits ⟨['1'], by decide, by decide⟩) (.spaces 1)))
    (.spaces 1)

/-- `db$.user.findMany({ where: { id: 1 } })`. -/
def dollarCall : ClientCall where
  client := ⟨"db$".toList, by decide, by decide⟩
  accessor := ⟨"user".toList, by decide, by decide⟩
  method := "findMany"
  method_mem := by decide
  argument := whereId
  keys := by decide +kernel
  short := by decide +kernel

/-- A block of TypeScript below a line of prose. -/
def listedBlock : Plan.Block where
  before := "Load the user:\n".toList
  tag := ['t', 's']
  after := ['\n']
  before_plain := by decide
  tag_word := by decide
  after_plain := by decide

/-- Of the call on `db$` nothing is read. -/
theorem dollar_client_not_found :
    String.ofList (listedBlock.plan dollarCall.chars) =
        "Load the user:\n\x60\x60\x60ts\n" ++
          "db$.user.findMany(\x7b where: \x7b id: 1 \x7d \x7d)\n\x60\x60\x60\n" ∧
      mentions (listedBlock.plan dollarCall.chars) = [] ∧
      ¬ ∀ (b : Plan.Block) (call : ClientCall), call.ReadFrom (b.plan call.chars) := by
  have hnone : mentions (listedBlock.plan dollarCall.chars) = [] := by decide +kernel
  refine ⟨by decide +kernel, hnone, fun h => ?_⟩
  have hread := (h listedBlock dollarCall).mentions
  rw [hnone] at hread
  exact absurd hread.length_eq (by decide +kernel)

end PlanAudit.Prisma
