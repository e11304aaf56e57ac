import PlanAudit.Proofs.Pattern.AnyCase
import PlanAudit.Proofs.Pattern.Positions
import PlanAudit.Proofs.Routes.Instances
import PlanAudit.Proofs.Routes.Normalized
import PlanAudit.Routes.Judgement

/-!
# Paths that plan and index spell alike

A plan names a route of the application router by its path between grave accents.  Of the patterns
for routes only that one reads such a plan: the others need white space or two quotation marks
behind their first word.  The path is then freed of what ends a sentence rather than a path, and the
marks that do so include the closing brackets, with which the segments of parameters end in the
index.  So plan and index spell a path alike exactly if it does not end in a closing bracket.

## Main definitions

* `inSpan`: the plan that consists of a path between grave accents
* `PlainSegment`: a segment that has nothing in it which ends a path in a plan
* `SpelledAlike`: a path is read as it is listed

## Main results

* `apiMentions_inSpan`: what is read from the plan
* `spelledAlike_iff`: which paths are spelled alike
* `parameter_cut_short`: of a last segment in brackets the last bracket is lost
-/

namespace PlanAudit.Routes

open Text Pattern

/-! ## A path between grave accents -/

/-- The plan that consists of the path between grave accents. -/
def inSpan (path : List Char) : List Char := '\x60' :: (path ++ ['\x60'])

/-- A path that is neither quoted nor broken. -/
structure Unbroken (path : List Char) : Prop where
  unquoted : ∀ c ∈ path, isQuotation c = false
  nonblank : ∀ c ∈ path, isBlank c = false

/-! ## Patterns that read something else -/

section Others

/-- White space stands in the text. -/
def HasBlank (s : List Char) : Prop := ∃ c ∈ s, isBlank c = true

/-- Two quotation marks stand in the text, and none at its front. -/
def QuotesInside (s : List Char) : Prop :=
  (∃ c t, s = c :: t ∧ isQuotation c = false) ∧ 2 ≤ s.countP isQuotation

theorem begins_blanks1 (p : Pattern) : Begins HasBlank (p ++ blanks1) := by
  intro c d hd
  obtain ⟨e, he, hd⟩ := mem_outcomes_append.mp hd
  obtain ⟨w, hw, hne, hblank⟩ := exists_reads_of_mem_plus hd
  obtain ⟨x, w, rfl⟩ := List.exists_cons_of_ne_nil hne
  refine ⟨x, (rest_suffix_of_mem_outcomes he).subset ?_, hblank x List.mem_cons_self⟩
  rw [hw.rest_eq]
  exact List.mem_cons_self

theorem begins_quotedPath {p : Pattern} (hp : StartsWith (fun c => !isQuotation c) p) (index : Nat)
    (start : Pattern) : Begins QuotesInside (p ++ quotedPath index start) := by
  intro c d hd
  obtain ⟨e, he, hd⟩ := mem_outcomes_append.mp hd
  obtain ⟨g, hd, hclose⟩ := mem_outcomes_append.mp hd
  obtain ⟨f, hopen, hpath⟩ := mem_outcomes_append.mp hd
  obtain ⟨x, xs, hfirst, hx⟩ := hp c e he
  obtain ⟨w, hw, -⟩ := exists_reads (readsOnly_true p) c e he
  obtain ⟨v, hv, -⟩ := exists_reads (readsOnly_true _) f g hpath
  obtain ⟨q, qs, hq, hmark, rfl⟩ := mem_outcomes_one.mp hopen
  obtain ⟨q', qs', hq', hmark', rfl⟩ := mem_outcomes_one.mp hclose
  have hmark : isQuotation q = true := hmark
  have hmark' : isQuotation q' = true := hmark'
  have hqs : qs = v ++ q' :: qs' := hv.rest_eq.trans (by rw [hq'])
  refine ⟨⟨x, xs, hfirst, by simpa using hx⟩, ?_⟩
  rw [hw.rest_eq, hq, hqs]
  simp only [List.countP_append, List.countP_cons, hmark, hmark', if_true]
  omega

/-- A quotation mark is no letter. -/
theorem unquoted_of_sameLetter {y : Char}
    (hy : ("'\"\x60".toList.all fun q => !sameLetter q y) = true) (x : Char)
    (hx : sameLetter x y = true) : (!isQuotation x) = true := by
  by_contra hmark
  have hquotation : isQuotation x = true := by simpa using hmark
  have hne := List.all_eq_true.mp hy x (List.contains_iff_mem.mp hquotation)
  rw [hx] at hne
  cases hne

theorem begins_fetchCall (start : String) : Begins QuotesInside (fetchCall start) :=
  begins_quotedPath ((((startsWith_lit rfl (by decide)).append _).append _).append _) 1 _

theorem begins_fetchCallWithMethod (start : String) :
    Begins QuotesInside (fetchCallWithMethod start) := by
  have hstart : StartsWith (fun c => !isQuotation c) (litAnyCase "fetch") :=
    startsWith_litAnyCase rfl (unquoted_of_sameLetter (by decide))
  have hpath := begins_quotedPath (((hstart.append blanks).append (char '(')).append blanks) 1
    (litAnyCase start)
  exact (((((((((((hpath.append _).append _).append _).append _).append _).append _).append
    _).append _).append _).append _).append _).append _

theorem begins_axiosCall (start : String) : Begins QuotesInside (axiosCall start) := by
  have hstart : StartsWith (fun c => !isQuotation c) (litAnyCase "axios") :=
    startsWith_litAnyCase rfl (unquoted_of_sameLetter (by decide))
  exact begins_quotedPath (((((hstart.append _).append _).append _).append _).append _) 2 _

theorem begins_methodAndPath (start : String) : Begins HasBlank (methodAndPath start) :=
  (begins_blanks1 _).append _

theorem begins_apiUrl : Begins HasBlank apiUrl :=
  (((((((begins_blanks1 (lit "new")).append _).append _).append _).append _).append _).append
    _).append _

end Others

section Span

variable {path : List Char}

theorem avoids_hasBlank (h : Unbroken path) : Avoids HasBlank (inSpan path) [] := by
  rintro u s hsplit - ⟨c, hc, hblank⟩
  have hmem : c ∈ inSpan path := hsplit ▸ List.mem_append_right u (by simpa using hc)
  rcases List.mem_cons.mp hmem with rfl | hmem
  · exact absurd hblank (by decide)
  · rcases List.mem_append.mp hmem with hmem | hmem
    · rw [h.nonblank c hmem] at hblank
      cases hblank
    · obtain rfl := List.mem_singleton.mp hmem
      exact absurd hblank (by decide)

theorem avoids_quotesInside (h : Unbroken path) : Avoids QuotesInside (inSpan path) [] := by
  rintro u s hsplit - ⟨⟨c, t, hs, hfirst⟩, hcount⟩
  rw [List.append_nil] at hs hcount
  cases u with
  | nil =>
    obtain rfl := (List.cons.inj (hsplit.trans hs)).1
    exact absurd hfirst (by decide)
  | cons x u =>
    -- Behind the first accent there is one quotation mark, at the end.
    have htail : s <:+ path ++ ['\x60'] := ⟨u, (List.cons.inj hsplit).2.symm⟩
    have hpath : path.countP isQuotation = 0 :=
      List.countP_eq_zero.mpr fun c hc => by simp [h.unquoted c hc]
    have hle : s.countP isQuotation ≤ (path ++ ['\x60']).countP isQuotation :=
      htail.sublist.countP_le
    have hone : ['\x60'].countP isQuotation = 1 := by decide
    rw [List.countP_append, hpath, hone] at hle
    omega

theorem exists_matchHere_apiSpan (h : Unbroken path) {tail : List Char}
    (hpath : path = "/api/".toList ++ tail) (hne : tail ≠ []) (before : Option Char) (offset : Nat)
    (t : List Char) : ∃ m, apiSpan.matchHere before offset (inSpan path ++ t) = some m ∧
      m.stop = offset + (inSpan path).length ∧ m.start = offset ∧ m.group 1 = path := by
  let start : Cursor := ⟨before, offset, inSpan path ++ t, []⟩
  have hrun : apiSpan.matchHere before offset start.rest =
      (char '\x60').run start fun e => (lit "/api/" ++ plus (one fun c => c != '\x60' &&
        !isBlank c)).run e fun f => (char '\x60').run (f.record 1 e) fun g =>
          some ⟨offset, g.offset, start.rest, g.captures⟩ := rfl
  have htail : (plus (one fun c => c != '\x60' && !isBlank c)).Takes tail (['\x60'] ++ t) := by
    refine takes_loop_one (fun c hc => ?_) (List.length_pos_of_ne_nil hne)
      (forall_head?_cons (by decide))
    have hmem : c ∈ path := hpath ▸ List.mem_append_right _ hc
    have hmark : c ≠ '\x60' := by
      rintro rfl
      exact absurd (h.unquoted _ hmem) (by decide)
    simp [h.nonblank c hmem, hmark]
  have hall : (lit "/api/" ++ plus (one fun c => c != '\x60' && !isBlank c)).Takes path
      (['\x60'] ++ t) := by
    rw [hpath]
    exact (takes_lit "/api/").append htail
  have hopen : start.rest = ['\x60'] ++ (path ++ (['\x60'] ++ t)) := by simp [start, inSpan]
  refine ⟨_, hrun.trans (takes_char _ _ _ _ _ hopen (hall _ _ _ _ rfl
    (takes_char _ _ _ _ _ rfl rfl))), ?_, rfl, ?_⟩
  · simp [Cursor.record, start, inSpan, Nat.add_assoc]
  · exact Capture.text_eq

/-- **The path is read as a whole**, and nothing besides. -/
theorem exists_findAll_apiSpan (h : Unbroken path) {tail : List Char}
    (hpath : path = "/api/".toList ++ tail) (hne : tail ≠ []) :
    ∃ m, apiSpan.findAll (inSpan path) = [m] ∧ m.start = 0 ∧ m.group 1 = path := by
  have hspan : StartsWith (· == '\x60') apiSpan := ((startsWith_char (by decide)).append _).append _
  obtain ⟨m, hm, hstop, hstart, hgroup⟩ := exists_matchHere_apiSpan h hpath hne none 0 []
  refine ⟨m, ?_, hstart, hgroup⟩
  have hsomething : inSpan path ≠ [] := List.cons_ne_nil _ _
  rw [findAll, ← List.append_nil (inSpan path),
    findScan_append_of_matchHere hsomething hm hstop, findScan, hspan.matchHere_nil]
  rfl

/-- **What is read from the plan**: the path, freed of what ends a sentence, if that leaves it below
`/api/`. -/
theorem apiMentions_inSpan (h : Unbroken path) {tail : List Char}
    (hpath : path = "/api/".toList ++ tail) (hne : tail ≠ []) :
    apiMentions (inSpan path) = if stringBegins "/api/" (normalizeUrl path) then
      [routeMention 0 none (normalizeUrl path)] else [] := by
  have hnil : ¬ QuotesInside [] := by rintro ⟨⟨c, t, hs, -⟩, -⟩; cases hs
  have hnone : ¬ HasBlank [] := by rintro ⟨c, hc, -⟩; cases hc
  have hquotes : ∀ {p : Pattern} {i : Nat} {method : Option Nat}, Begins QuotesInside p →
      RoutePattern.mentions ⟨p, i, method⟩ (inSpan path) = [] := by
    intro p i method hp
    rw [RoutePattern.mentions, findAll, hp.findScan_eq_nil hnil (avoids_quotesInside h)]
    rfl
  have hblanks : ∀ {p : Pattern} {i : Nat} {method : Option Nat}, Begins HasBlank p →
      RoutePattern.mentions ⟨p, i, method⟩ (inSpan path) = [] := by
    intro p i method hp
    rw [RoutePattern.mentions, findAll, hp.findScan_eq_nil hnone (avoids_hasBlank h)]
    rfl
  obtain ⟨m, hm, hstart, hgroup⟩ := exists_findAll_apiSpan h hpath hne
  have hspan : RoutePattern.mentions ⟨apiSpan, 1, none⟩ (inSpan path) =
      [routeMention 0 none (normalizeUrl path)] := by
    rw [RoutePattern.mentions, hm, List.map_singleton, hstart, hgroup]
    rfl
  have hall : apiPatterns.flatMap (·.mentions (inSpan path)) =
      [routeMention 0 none (normalizeUrl path)] := by
    simp only [apiPatterns, routePatterns, List.flatMap_append, List.flatMap_cons,
      List.flatMap_nil, hquotes (begins_fetchCall _), hquotes (begins_fetchCallWithMethod _),
      hquotes (begins_axiosCall _), hblanks (begins_methodAndPath _), hblanks begins_apiUrl, hspan,
      List.nil_append, List.append_nil]
  rw [apiMentions, mentionsBy, hall, List.filter_singleton]
  have hname : (routeMention 0 none (normalizeUrl path)).ownerName = normalizeUrl path := rfl
  rw [hname]
  cases stringBegins "/api/" (normalizeUrl path) <;> rfl

end Span

/-! ## What ends a path -/

/-- A segment that has nothing in it which ends a path in a plan. -/
structure PlainSegment (s : String) : Prop where
  nonblank : ∀ c ∈ s.toList, isBlank c = false
  unquoted : ∀ c ∈ s.toList, isQuotation c = false
  noQuery : '?' ∉ s.toList
  noStop : ∀ c ∈ s.toList.getLast?, c ∉ ".,;".toList

instance (s : String) : Decidable (PlainSegment s) :=
  decidable_of_iff ((∀ c ∈ s.toList, isBlank c = false) ∧ (∀ c ∈ s.toList, isQuotation c = false) ∧
    '?' ∉ s.toList ∧ ∀ c ∈ s.toList.getLast?, c ∉ ".,;".toList)
    ⟨fun h => ⟨h.1, h.2.1, h.2.2.1, h.2.2.2⟩, fun h => ⟨h.1, h.2, h.3, h.4⟩⟩

/-- A bracket that closes what stands in front of it. -/
def isClosing (c : Char) : Bool := c == ')' || c == ']'

/-- What ends a sentence ends a quotation, or is one of three marks, or closes a bracket. -/
theorem isTrailingPunctuation_eq (c : Char) :
    isTrailingPunctuation c = (isQuotation c || ".,;".toList.contains c || isClosing c) := by
  have hall : "\x60'\")],;.".toList = ['\x60', '\'', '"', ')', ']', ',', ';', '.'] := rfl
  have hquotation : "'\"\x60".toList = ['\'', '"', '\x60'] := rfl
  have hstop : ".,;".toList = ['.', ',', ';'] := rfl
  rw [Bool.eq_iff_iff, isTrailingPunctuation, isQuotation, isClosing, hall, hquotation, hstop]
  simp only [Bool.or_eq_true, beq_iff_eq, List.contains_iff_mem, List.mem_cons, List.not_mem_nil,
    or_false]
  tauto

section Normalized

variable {path : List Char}

/-- A path without a query is left as it is, if what it ends in stays. -/
theorem normalizeUrl_eq_ofList (hne : path ≠ []) (hquery : '?' ∉ path)
    (hlast : ∀ c ∈ path.getLast?, isTrailingPunctuation c = false ∧ c ≠ '/') :
    normalizeUrl path = String.ofList path := by
  have hpunctuation : dropEndWhile isTrailingPunctuation path = path :=
    List.rdropWhile_eq_self_iff.mpr fun hl => by
      simp [(hlast _ (List.getLast_mem_getLast? hl)).1]
  have hslash : dropEndWhile (· == '/') path = path :=
    List.rdropWhile_eq_self_iff.mpr fun hl => by
      simpa using (hlast _ (List.getLast_mem_getLast? hl)).2
  have hbare : path.takeWhile (· != '?') = path :=
    List.takeWhile_eq_self_iff.mpr fun c hc => bne_iff_ne.mpr fun heq => hquery (heq ▸ hc)
  unfold normalizeUrl
  simp only [hpunctuation, hbare, hslash]
  exact if_neg (by simpa using hne)

/-- What ends in punctuation is cut. -/
theorem length_normalizeUrl_lt (hlong : 1 < path.length)
    (hlast : ∃ c ∈ path.getLast?, isTrailingPunctuation c = true) :
    (normalizeUrl path).toList.length < path.length := by
  obtain ⟨c, hc, hpunctuation⟩ := hlast
  obtain ⟨front, rfl⟩ := List.getLast?_eq_some_iff.mp hc
  have hcut : (dropEndWhile isTrailingPunctuation (front ++ [c])).length ≤ front.length := by
    have hdrop : dropEndWhile isTrailingPunctuation (front ++ [c]) =
        dropEndWhile isTrailingPunctuation front := List.rdropWhile_concat_pos _ _ _ hpunctuation
    rw [hdrop]
    exact (List.rdropWhile_prefix _ _).length_le
  have hbare := (List.takeWhile_prefix (· != '?')
    (l := dropEndWhile isTrailingPunctuation (front ++ [c]))).length_le
  have hurl : (dropEndWhile (· == '/') ((dropEndWhile isTrailingPunctuation
      (front ++ [c])).takeWhile (· != '?'))).length ≤ _ := (List.rdropWhile_prefix _ _).length_le
  rw [List.length_append, List.length_singleton] at hlong ⊢
  unfold normalizeUrl
  simp only
  split
  · exact hlong
  · rw [String.toList_ofList]
    omega

end Normalized

/-! ## Plan and index -/

/-- A path is read as it is listed: the plan that consists of it makes one mention, of this path,
and a route that is listed under it is the one found for the mention. -/
def SpelledAlike (url : String) : Prop :=
  ∃ m, apiMentions (inSpan url.toList) = [m] ∧ m.owner = some url ∧
    ∀ (index : AppIndex) (route : AppRoute), index.find? url = some route →
      index.match? m.ownerName = some route

section Files

variable {file url : String}

/-- Below `/api/` there is a segment. -/
theorem exists_tail (hfile : urlOfFile? file = some url) (hapi : stringBegins "/api/" url = true) :
    ∃ tail, url.toList = "/api/".toList ++ tail ∧ tail ≠ [] := by
  obtain ⟨tail, htail⟩ := List.isPrefixOf_iff_prefix.mp hapi
  refine ⟨tail, htail.symm, ?_⟩
  rintro rfl
  -- The path alone has one segment, in front of the slash at its end.
  obtain rfl : url = "/api/" := String.toList_inj.mp htail.symm
  exact absurd (slashed_properSegments_of_urlOfFile hfile) (by decide)

theorem toList_url (hfile : urlOfFile? file = some url) (hapi : stringBegins "/api/" url = true) :
    properSegments url ≠ [] ∧
      url.toList = (properSegments url).flatMap fun s => '/' :: s.toList := by
  have hslashed := slashed_properSegments_of_urlOfFile hfile
  have hne : properSegments url ≠ [] := by
    intro hnil
    rw [hnil] at hslashed
    obtain rfl : "/" = url := hslashed
    exact absurd hapi (by decide)
  refine ⟨hne, ?_⟩
  rw [← toList_slashed hne, hslashed]

/-- A character of the path is a slash or one of a segment. -/
theorem eq_slash_or_mem_segment (hfile : urlOfFile? file = some url)
    (hapi : stringBegins "/api/" url = true) {c : Char} (hc : c ∈ url.toList) :
    c = '/' ∨ ∃ s ∈ properSegments url, c ∈ s.toList := by
  rw [(toList_url hfile hapi).2] at hc
  obtain ⟨s, hs, hc⟩ := List.mem_flatMap.mp hc
  exact (List.mem_cons.mp hc).imp_right fun hc => ⟨s, hs, hc⟩

/-- The path ends as its last segment does. -/
theorem exists_getLast?_segment (hfile : urlOfFile? file = some url)
    (hapi : stringBegins "/api/" url = true) :
    ∃ s ∈ properSegments url, s.toList ≠ [] ∧ url.toList.getLast? = s.toList.getLast? := by
  obtain ⟨hne, htext⟩ := toList_url hfile hapi
  obtain ⟨front, s, hsplit⟩ := (List.eq_nil_or_concat (properSegments url)).resolve_left hne
  have hmem : s ∈ properSegments url := by simp [hsplit]
  have hs : s.toList ≠ [] :=
    fun h => (isSegment_of_mem_properSegments hmem).ne_empty (String.toList_eq_nil_iff.mp h)
  refine ⟨s, hmem, hs, ?_⟩
  rw [htext, hsplit, List.concat_eq_append, List.flatMap_append, List.flatMap_singleton,
    List.getLast?_append_of_ne_nil _ (List.cons_ne_nil _ _), List.getLast?_cons_of_ne_nil hs]

theorem unbroken_url (hfile : urlOfFile? file = some url) (hapi : stringBegins "/api/" url = true)
    (hplain : ∀ s ∈ properSegments url, PlainSegment s) : Unbroken url.toList where
  unquoted c hc := by
    rcases eq_slash_or_mem_segment hfile hapi hc with rfl | ⟨s, hs, hc⟩
    · decide
    · exact (hplain s hs).unquoted c hc
  nonblank c hc := by
    rcases eq_slash_or_mem_segment hfile hapi hc with rfl | ⟨s, hs, hc⟩
    · decide
    · exact (hplain s hs).nonblank c hc

/-- At the end of the path no punctuation stands but a bracket. -/
theorem isTrailingPunctuation_last (hfile : urlOfFile? file = some url)
    (hapi : stringBegins "/api/" url = true) (hplain : ∀ s ∈ properSegments url, PlainSegment s)
    {c : Char} (hc : c ∈ url.toList.getLast?) :
    isTrailingPunctuation c = isClosing c ∧ c ≠ '/' := by
  obtain ⟨s, hs, -, hlast⟩ := exists_getLast?_segment hfile hapi
  rw [hlast] at hc
  have hmem : c ∈ s.toList := List.mem_of_getLast? hc
  have hstop : ".,;".toList.contains c = false := by
    simpa using (hplain s hs).noStop c hc
  refine ⟨?_, ?_⟩
  · rw [isTrailingPunctuation_eq, (hplain s hs).unquoted c hmem, hstop]
    rfl
  · rintro rfl
    exact (isSegment_of_mem_properSegments hs).not_mem hmem

/-- **Plan and index spell the path of a file alike exactly if it does not end in a closing
bracket**, where its segments hold nothing that ends a path in a plan.  A segment of a parameter
ends in one. -/
theorem spelledAlike_iff (hfile : urlOfFile? file = some url)
    (hapi : stringBegins "/api/" url = true) (hplain : ∀ s ∈ properSegments url, PlainSegment s) :
    SpelledAlike url ↔ ∀ c ∈ url.toList.getLast?, isClosing c = false := by
  obtain ⟨tail, htail, hne⟩ := exists_tail hfile hapi
  have hread := apiMentions_inSpan (unbroken_url hfile hapi hplain) htail hne
  have hpunctuation {c : Char} (hc : c ∈ url.toList.getLast?) :=
    isTrailingPunctuation_last hfile hapi hplain hc
  constructor
  · rintro ⟨m, hm, howner, -⟩ c hc
    -- Were it a bracket, the path that is read would be shorter.
    by_contra hclosing
    rw [Bool.not_eq_false, ← (hpunctuation hc).1] at hclosing
    have hlong : 1 < url.toList.length := by simp [htail]
    have hshort := length_normalizeUrl_lt hlong ⟨c, hc, hclosing⟩
    rw [hread] at hm
    split at hm
    · obtain rfl := (List.cons.inj hm).1
      rw [Option.some.inj howner] at hshort
      exact absurd hshort (lt_irrefl _)
    · cases hm
  · intro hopen
    have hquery : '?' ∉ url.toList := fun hmem => by
      rcases eq_slash_or_mem_segment hfile hapi hmem with h | ⟨s, hs, hmem⟩
      · exact absurd h (by decide)
      · exact (hplain s hs).noQuery hmem
    have hurl : normalizeUrl url.toList = url :=
      (normalizeUrl_eq_ofList (by simp [htail]) hquery fun c hc =>
        ⟨(hpunctuation hc).1.trans (hopen c hc), (hpunctuation hc).2⟩).trans String.ofList_toList
    rw [hurl, if_pos hapi] at hread
    refine ⟨_, hread, rfl, fun index route hroute => ?_⟩
    have hname : (routeMention 0 none url).ownerName = url := rfl
    rw [hname, AppIndex.match?, hroute]

end Files

/-- A path with a parameter in the midst of it is read as it is listed. -/
theorem spelledAlike_members :
    urlOfFile? "src/app/api/(admin)/[org]/users/route.ts" = some "/api/[org]/users" ∧
      stringBegins "/api/" "/api/[org]/users" = true ∧
      (∀ s ∈ properSegments "/api/[org]/users", PlainSegment s) ∧
      SpelledAlike "/api/[org]/users" :=
  have hfile : urlOfFile? "src/app/api/(admin)/[org]/users/route.ts" =
      some "/api/[org]/users" := by decide +kernel
  have hplain : ∀ s ∈ properSegments "/api/[org]/users", PlainSegment s := by decide
  ⟨hfile, by decide, hplain, (spelledAlike_iff hfile (by decide) hplain).mpr (by decide)⟩

/-- The route of a single user, and one that fits as many segments and is listed in front of it. -/
def nestedParameters : AppIndex where
  entries := [("/api/[kind]/[key]", ⟨"/api/[kind]/[key]", "app/api/[kind]/[key]/route.ts", []⟩),
    ("/api/users/[id]", ⟨"/api/users/[id]", "app/api/users/[id]/route.ts", []⟩)]
  nodup := by decide

/-- **Of a parameter at the end the bracket is lost**, so that another route is found. -/
theorem parameter_cut_short :
    urlOfFile? "app/api/users/[id]/route.ts" = some "/api/users/[id]" ∧
      stringBegins "/api/" "/api/users/[id]" = true ∧
      (∀ s ∈ properSegments "/api/users/[id]", PlainSegment s) ∧
      apiMentions (inSpan "/api/users/[id]".toList) = [routeMention 0 none "/api/users/[id"] ∧
      (nestedParameters.match? "/api/users/[id").map (·.url) = some "/api/[kind]/[key]" ∧
      ¬ SpelledAlike "/api/users/[id]" := by
  have hread : apiMentions (inSpan "/api/users/[id]".toList) =
      [routeMention 0 none "/api/users/[id"] := by decide +kernel
  refine ⟨by decide +kernel, by decide, by decide, hread, by decide, ?_⟩
  rintro ⟨m, hm, howner, -⟩
  rw [hread] at hm
  obtain rfl := (List.cons.inj hm).1
  exact absurd howner (by decide)

end PlanAudit.Routes
