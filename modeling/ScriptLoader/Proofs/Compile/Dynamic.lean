import ScriptLoader.Loader.Request
import ScriptLoader.Proofs.Compile.Imports
import ScriptLoader.Proofs.Places.Programs
import ScriptLoader.Proofs.Syntax.Loading

/-!
# Calls whose modules are known beforehand

A call that loads a module is rewritten to one of the loader, with the location of the module that
makes the call. Where the call has a string, its dependency is known before it is made.

* `Loads`: the calls in a tree, at any depth (`mem_sites_iff`).
* `ReadsCalls`: what a parser has to do with calls of the loader, as that of this library does
  (`own_readsCalls`).
* `edited_call`: in linked text the rewritten call stands between what the other edits make of the
  source in front of it and behind it.
* `Preresolved`: the rewritten call is read as one with the same string and the location, whatever
  characters these have, and run with them the loader loads the dependency.
* `dynamic_of_ofSource`: all calls with a string are like that in linked text, and the report lists
  their dependencies in the order of their places, each where it first occurs.
-/

namespace ScriptLoader.Compile.Linked

open Syntax Syntax.Parser

variable {R : Reader} {dialect : Dialect}

/-! ## Calls at any depth -/

/-- A call that loads a module occurs in a tree. -/
inductive Loads (s : Site) : Node → Prop where
  | here {marks : List Mark} {text : String} {span : Span} {argument : Node} {options : List Node}
    (h : s = ⟨span, argument.span, if argument.is .stringLit then some argument.text else none⟩) :
    Loads s (.mk .importCall marks text span (argument :: options))
  | inside {n c : Node} (hc : c ∈ n.children) (h : Loads s c) : Loads s n

theorem sites_call {marks : List Mark} {text : String} {span : Span} {argument : Node}
    {options : List Node} : sites (.mk .importCall marks text span (argument :: options)) =
      ⟨span, argument.span, if argument.is .stringLit then some argument.text else none⟩ ::
        sitesAll (argument :: options) := by
  rw [sites, sitesAll]

theorem loads_of_mem_sites {s : Site} (n : Node) (hs : s ∈ sites n) : Loads s n := by
  match n with
  | .mk kind marks text span cs =>
    have hchildren : s ∈ sitesAll cs → Loads s (.mk kind marks text span cs) := fun hs => by
      obtain ⟨c, hc, hs⟩ := mem_sitesAll.1 hs
      exact .inside hc (loads_of_mem_sites c hs)
    rcases call_or_children (.mk kind marks text span cs) with
      ⟨_, _, _, argument, options, heq⟩ | ⟨hsites, -⟩
    · cases heq
      rw [sites_call] at hs
      exact (List.mem_cons.1 hs).elim .here hchildren
    · exact hchildren (hsites ▸ hs)

theorem mem_sites_iff {s : Site} {n : Node} : s ∈ sites n ↔ Loads s n := by
  refine ⟨loads_of_mem_sites n, fun h => ?_⟩
  induction h with
  | here h =>
    rw [sites_call]
    exact List.mem_cons.2 (Or.inl h)
  | @inside n c hc _ ih =>
    have hchildren : s ∈ sitesAll n.children := mem_sitesAll.2 ⟨c, hc, ih⟩
    rcases call_or_children n with ⟨_, _, _, argument, options, rfl⟩ | ⟨hsites, -⟩
    · rw [sites_call]
      exact List.mem_cons_of_mem _ hchildren
    · rwa [hsites]

/-! ## Two edits with nothing between them -/

theorem solid_of_between {es : List Edit} {pos stop : Nat} (h : Between pos stop es) :
    ∀ e ∈ es, e.span.start < e.span.stop := by
  induction es generalizing pos with
  | nil => simp
  | cons e es ih => exact List.forall_mem_cons.2 ⟨h.2.1, ih h.2.2⟩

/-- Of edits that lie one behind the other, two between which there is none follow each other. -/
theorem exists_append_of_between {cs : List Char} {es : List Edit} {e f : Edit} {pos stop : Nat}
    (h : Between pos stop es) (he : e ∈ es) (hf : f ∈ es) (hef : e.span.stop ≤ f.span.start)
    (hnone : ∀ x ∈ es, ¬ Within x.span ⟨e.span.stop, f.span.start⟩) :
    ∃ before behind, es = before ++ [e, f] ++ behind ∧
      edited cs pos stop es = edited cs pos e.span.start before ++
        (e.text ++ slice cs ⟨e.span.stop, f.span.start⟩ ++ f.text) ++
          edited cs f.span.stop stop behind := by
  induction es generalizing pos with
  | nil => cases he
  | cons x es ih =>
    obtain ⟨-, hlt, hrest⟩ := h
    have hbehind := hrest.sorted.1
    have hsolid := solid_of_between hrest
    rcases List.mem_cons.1 he with rfl | hmem
    · rcases List.mem_cons.1 hf with rfl | hf
      · omega
      -- The next edit is `f`, since it would be between the two otherwise.
      cases es with
      | nil => cases hf
      | cons y ys =>
        rcases List.mem_cons.1 hf with rfl | hf
        · exact ⟨[], ys, rfl, by simp [edited]⟩
        · have hlater := hrest.2.2.sorted.1 f hf
          exact absurd ⟨hrest.1, hlater⟩ (hnone y (by simp))
    · rcases List.mem_cons.1 hf with rfl | hf
      · have := hbehind e hmem
        have := hsolid e hmem
        omega
      · obtain ⟨before, behind, rfl, hedited⟩ := ih hrest hmem hf fun y hy =>
          hnone y (List.mem_cons_of_mem _ hy)
        refine ⟨x :: before, behind, rfl, ?_⟩
        simp only [List.cons_append, edited, List.append_assoc] at hedited ⊢
        rw [hedited]

/-! ## Calls of the loader -/

/-- A call of the loader with two literals. -/
def loadCall (first second : List Char) : List Char :=
  "__tsb_import_dynamic".toList ++ '(' :: (first ++ ',' :: ' ' :: (second ++ [')']))

/-- How a parser reads calls of the loader. `IsLiteral` is which texts are literals of which
strings. -/
structure ReadsCalls (R : Reader) (IsLiteral : List Char → String → Prop) : Prop where
  quoted : ∀ {text s}, IsQuoted text s → IsLiteral text s
  /-- Where a source has a string for a call that loads a module, a literal of it stands. -/
  spelled : ∀ {dialect source program}, R.read dialect source = .ok program →
    ∀ s ∈ sitesAll program.statements, ∀ raw ∈ s.literal, IsLiteral (slice source s.argument) raw
  /-- Two literals behind the name of a function are a call of it with their strings. -/
  call : ∀ {dialect first second a b}, IsLiteral first a → IsLiteral second b → ∃ program,
    R.read dialect (loadCall first second) = .ok program ∧ program.statements.map Node.bare =
      [.mk .expression [] "" ⟨0, 0⟩ [callTree "__tsb_import_dynamic" [a, b]]]

/-- A text is scanned as a string, whatever stands behind it. -/
def IsScanned (text : List Char) (s : String) : Prop :=
  ∀ rest, Scans (text ++ rest) (.string s) rest

theorem isScanned_slice {source : List Char} {s : Span} {raw : String}
    (h : Spelled source s raw) (hstop : s.stop ≤ source.length) :
    IsScanned (slice source s) raw := by
  obtain ⟨fuel, hscan⟩ := h
  obtain ⟨front, hfront, hscans⟩ := scans_string hscan
  have hslice : slice source s = front := by
    have hlength := congrArg List.length hfront
    rw [List.length_append, List.length_drop, List.length_drop] at hlength
    rw [slice, hfront, List.take_left']
    omega
  rwa [hslice]

theorem spells_loadCall {first second : List Char} {a b : String} (ha : IsScanned first a)
    (hb : IsScanned second b) :
    Spells (loadCall first second) (callTokens "__tsb_import_dynamic" [a, b]) [] := by
  have htokens : ∀ w, callTokens w [a, b] =
      [.name w false, .punct "(", .string a, .punct ",", .string b, .punct ")"] := by
    simp [callTokens, commaTokens, stringItem]
  have hname : Scans (loadCall first second) (.name "__tsb_import_dynamic" false)
      ('(' :: (first ++ ',' :: ' ' :: (second ++ [')']))) :=
    scans_name (by decide) (by decide)
  rw [htokens]
  exact .next hname <| .next (scans_alone (by decide) _) <| .next (ha _) <|
    .next (scans_alone (by decide) _) <| .blank (hb _) <| .next (scans_alone (by decide) _) .nil

theorem own_readsCalls : ReadsCalls .own IsScanned where
  quoted := scans_isQuoted
  spelled {_ source program} h s hs raw hraw := by
    have hlaid := laid_of_read h
    have hsound := (spansNested_of_read h).spread.sound s hs
    exact isScanned_slice (hlaid.spelled s hs raw hraw)
      (Nat.le_trans (Nat.le_of_lt hsound.2.2) (hlaid.within s hs).2)
  call ha hb := Program.read_call (by decide) (by simp) (spells_loadCall ha hb) (by rintro ⟨⟩) _

/-- The edits of a call leave its argument and put a call of the loader around it. -/
theorem text_siteEdits (location : String) (argument : List Char) :
    (loadFunction ++ "(").toList ++ argument ++ (", " ++ Text.jsonQuoted location ++ ")").toList =
      loadCall argument (Text.jsonQuoted location).toList := by
  simp only [String.toList_append, List.append_assoc]
  rfl

/-! ## Calls in linked text -/

section

variable {source location : String} {options : Options} {program : Program} {p : Plan} {s : Site}

/-- Nothing is replaced inside of a string that names a module. -/
theorem not_within_argument (hn : SpansNested program.statements source.toList.length)
    (hplain : ∀ n ∈ program.statements, Plain n)
    (hbare : ∀ s ∈ sitesAll program.statements, s.literal.isSome →
      ∀ t ∈ sitesAll program.statements, t.Spares s.argument)
    (hp : plan R dialect program source.toList location options = .ok p)
    (hs : s ∈ sitesAll program.statements) (hl : s.literal.isSome) :
    ∀ e ∈ p.edits, ¬ Within e.span s.argument := by
  intro e he hwithin
  have hspan := List.mem_map_of_mem (f := Edit.span) he
  rw [spans_plan hp, List.mem_append, List.mem_map, List.mem_flatMap] at hspan
  rcases hspan with ⟨n, hmem, hspan⟩ | ⟨t, ht, hx⟩
  · -- A declaration is apart from the statement that the call is in.
    obtain ⟨hmem, hreplaced⟩ := List.mem_filter.1 hmem
    have hfirst : (⟨s.span.start, s.argument.start⟩ : Span) ∈ s.spans := by simp [Site.spans]
    obtain ⟨-, m, hm, hsm, -⟩ := hn.within_of_mem_spans hs hfirst
    have hne : n ≠ m := by
      rintro rfl
      rw [hplain n hmem hreplaced] at hsm
      cases hsm
    have happart := hn.apart_statements hmem hm hne
    have hsolid := (hn.inBounds n hmem).1
    have hsound := hn.spread.sound s hs
    have hin := hn.within m hm s hsm
    rw [← hspan] at hwithin
    simp only [Within, Apart, Site.Sound] at hwithin happart hsound hin
    omega
  · exact hbare s hs hl t (List.mem_mergeSort.1 ht) e.span hx hwithin

theorem siteEdits_subset (hp : plan R dialect program source.toList location options = .ok p)
    (hs : s ∈ sitesAll program.statements) : siteEdits location s ⊆ p.edits := by
  obtain ⟨q, deps, -, -, rfl⟩ := plan_ok hp
  intro e he
  exact List.mem_append_right _ (List.mem_flatMap.2 ⟨s, List.mem_mergeSort.2 hs, he⟩)

/-- The rewritten call stands between what the other edits make of the source in front of it and
behind it. -/
theorem edited_call {linked : Linked} (hread : R.read dialect source.toList = .ok program)
    (hn : SpansNested program.statements source.toList.length)
    (hplain : ∀ n ∈ program.statements, Plain n)
    (hbare : ∀ s ∈ sitesAll program.statements, s.literal.isSome →
      ∀ t ∈ sitesAll program.statements, t.Spares s.argument)
    (hp : plan R dialect program source.toList location options = .ok p)
    (h : ofSource R source location dialect options = .ok linked)
    (hs : s ∈ sitesAll program.statements) (hl : s.literal.isSome) :
    ∃ before behind, (before ++ siteEdits location s ++ behind).Perm p.edits ∧
      linked.code.toList = preface p.hoists ++ edited source.toList 0 s.span.start before ++
        loadCall (slice source.toList s.argument) (Text.jsonQuoted location).toList ++
          edited source.toList s.span.stop source.toList.length behind := by
  obtain ⟨program', p', text, hread', hp', hsplice, hcode, -⟩ := parts_of_ofSource h
  cases hread.symm.trans hread'
  cases hp.symm.trans hp'
  -- The edits in the order of their places.
  have hperm := edits_of_plan hplain hp
  have happart : (editsOf source.toList location 0 program.statements).Pairwise Edit.Apart :=
    (hperm.pairwise_iff Edit.Apart.symm).1
      ((splice_ok_iff (fits_of_plan hn hp)).1 ⟨text, hsplice⟩)
  obtain ⟨hbetween, -⟩ :=
    edited_editsOf hn (Nat.zero_le _) (fun _ _ => Nat.zero_le _) happart
  have htext := edited_of_spliceFrom hsplice
  rw [sortEdits_eq hbetween hperm] at htext
  have hmem : ∀ e ∈ siteEdits location s,
      e ∈ editsOf source.toList location 0 program.statements := fun e he =>
    hperm.mem_iff.1 (siteEdits_subset hp hs he)
  have hsound := hn.spread.sound s hs
  obtain ⟨before, behind, hes, hedited⟩ := @exists_append_of_between source.toList _ _ _ _ _
    hbetween (hmem _ List.mem_cons_self) (hmem _ (List.mem_cons_of_mem _ List.mem_cons_self))
    hsound.2.1 fun e he => not_within_argument hn hplain hbare hp hs hl e (hperm.mem_iff.2 he)
  refine ⟨before, behind, ?_, ?_⟩
  · exact (List.Perm.of_eq hes.symm).trans hperm.symm
  · rw [hcode, htext, hedited, text_siteEdits]
    simp only [List.append_assoc]

/-- Calls in the order of their places: none stands inside of a later one. -/
theorem ordered_sortSites (hn : SpansNested program.statements source.toList.length)
    (hplain : ∀ n ∈ program.statements, Plain n)
    (hp : plan R dialect program source.toList location options = .ok p)
    (happart : p.edits.Pairwise Edit.Apart) :
    (sortSites (sitesAll program.statements)).Pairwise fun s t =>
      s.span.start < t.span.start ∧ ¬ Within s.span t.span := by
  have hcalls := (apart_edits_iff hplain hn hp).1 happart
  have hperm := sortSites_perm (sitesAll program.statements)
  have hdistinct := (hperm.pairwise_iff Site.Apart.symm).2 (hn.spread.apart.2 hcalls)
  refine ((sorted_sortSites _).and hdistinct).imp_of_mem fun {s t} hs ht h => ?_
  have hs := hn.spread.sound s (hperm.mem_iff.1 hs)
  have ht := hn.spread.sound t (hperm.mem_iff.1 ht)
  simp only [Site.apart_iff, Apart, Site.Sound] at h hs ht
  simp only [Within]
  omega

end

/-! ## The report -/

section

variable {location : String} {p q : Plan}

/-- Declarations add nothing to what is loaded by calls. -/
theorem declarations_dynamic {source : List Char} {retained : Node → Bool} {ns : List Node}
    (h : declarations source location retained p ns = .ok q) :
    q.report.dynamic = p.report.dynamic := by
  induction ns generalizing p with
  | nil =>
    cases h
    rfl
  | cons n ns ih =>
    obtain ⟨r, hr, hrest⟩ := declarations_cons h
    rw [ih hrest]
    cases adds_declaration hr with
    | nothing hsource hhoists hreport htemporaries => rw [hreport]
    | kept hsource hdep hreport hhoists hdeclares hsubset hholders htemporaries =>
      rw [hreport]
      rfl

/-- The calls of a plan that have strings, with their dependencies. -/
theorem dynamic_of_plan {source : List Char} {options : Options} {program : Program}
    (hp : plan R dialect program source location options = .ok p) :
    ∃ deps, List.Forall₂ (Names location)
        ((sortSites (sitesAll program.statements)).filter (·.literal.isSome)) deps ∧
      p.report.dynamic = deps.eraseDups := by
  obtain ⟨q, deps, hd, hdeps, rfl⟩ := plan_ok hp
  have hnone := declarations_dynamic hd
  refine ⟨deps, hdeps, ?_⟩
  rw [foldl_pushDynamic, foldl_push, hnone]
  simp

end

/-! ## What a call loads -/

/-- A call with a string, as it is linked and as it is run; `quoted` is the location in quotes. -/
structure Preresolved (R : Reader) (source location : String) (quoted : List Char) (p : Plan)
    (linked : Linked) (s : Site) (raw : String) (dep : Specifier) : Prop where
  literal : s.literal = some raw
  /-- The rewritten call stands in its place, between what the other edits make of the source. -/
  stands : ∃ before behind, (before ++ siteEdits location s ++ behind).Perm p.edits ∧
    linked.code.toList = preface p.hoists ++ edited source.toList 0 s.span.start before ++
      loadCall (slice source.toList s.argument) quoted ++
        edited source.toList s.span.stop source.toList.length behind
  /-- It is read as a call of the loader with the string and the location, in every dialect. -/
  reads : ∀ dialect, ∃ program,
    R.read dialect (loadCall (slice source.toList s.argument) quoted) = .ok program ∧
      program.statements.map Node.bare =
        [.mk .expression [] "" ⟨0, 0⟩ [callTree "__tsb_import_dynamic" [raw, location]]]
  /-- With these two strings every loader loads the dependency, under its own options. -/
  loads : ∀ {F σ : Type} (host : Host F σ) (l : Loader F σ),
    l.importDynamic host raw location =
      (l.log (.dynamicImport raw location dep)).loadSpecifier host dep l.settings.options
  listed : dep ∈ linked.report.dynamic

/-- In linked text every call with a string, at any depth, is a call of the loader that loads what
the report lists; and the report lists no more than that, in the order of the calls. -/
theorem dynamic_of_ofSource {IsLiteral : List Char → String → Prop} (hR : ReadsCalls R IsLiteral)
    {source location : String} {options : Options} {program : Program} {linked : Linked}
    (hread : R.read dialect source.toList = .ok program)
    (hn : SpansNested program.statements source.toList.length)
    (hplain : ∀ n ∈ program.statements, Plain n)
    (hbare : ∀ s ∈ sitesAll program.statements, s.literal.isSome →
      ∀ t ∈ sitesAll program.statements, t.Spares s.argument)
    (h : ofSource R source location dialect options = .ok linked) :
    ∃ p quoted, ∃ calls : List Site, ∃ deps,
      plan R dialect program source.toList location options = .ok p ∧ linked.report = p.report ∧
      IsQuoted quoted location ∧ (∀ s, s ∈ calls ↔ ∃ n ∈ program.statements, Loads s n) ∧
      (calls.Pairwise fun s t => s.span.start < t.span.start ∧ ¬ Within s.span t.span) ∧
      List.Forall₂ (fun s dep => ∃ raw, Preresolved R source location quoted p linked s raw dep)
        (calls.filter (·.literal.isSome)) deps ∧
      linked.report.dynamic = deps.eraseDups := by
  obtain ⟨program', p, text, hread', hp, hsplice, -, hreport⟩ := parts_of_ofSource h
  cases hread.symm.trans hread'
  have happart : p.edits.Pairwise Edit.Apart :=
    (splice_ok_iff (fits_of_plan hn hp)).1 ⟨text, hsplice⟩
  obtain ⟨deps, hdeps, hdynamic⟩ := dynamic_of_plan hp
  have hmem : ∀ s, s ∈ sortSites (sitesAll program.statements) ↔
      s ∈ sitesAll program.statements := fun s => List.mem_mergeSort
  rw [← hreport] at hdynamic
  refine ⟨p, _, _, deps, hp, hreport, isQuoted_jsonQuoted location, fun s => ?_,
    ordered_sortSites hn hplain hp happart, ?_, hdynamic⟩
  · simp only [hmem, mem_sitesAll, mem_sites_iff]
  · obtain ⟨hlength, hzip⟩ := List.forall₂_iff_zip.1 hdeps
    refine List.forall₂_iff_zip.2 ⟨hlength, fun {s dep} hpair => ?_⟩
    obtain ⟨raw, hraw, hdep⟩ := hzip hpair
    obtain ⟨hs, hdeps⟩ := List.of_mem_zip hpair
    have hs := (hmem s).1 (List.mem_filter.1 hs).1
    exact ⟨raw, {
      literal := hraw
      stands := edited_call hread hn hplain hbare hp h hs (by simp [hraw])
      reads := fun _ =>
        hR.call (hR.spelled hread s hs raw hraw) (hR.quoted (isQuoted_jsonQuoted location))
      loads := fun host l => by rw [Loader.importDynamic, hdep]
      listed := hdynamic ▸ List.mem_eraseDups.2 hdeps }⟩

/-- A call alone, and two of which one has the same string in other characters, inside of the
argument of another one. -/
def callsWithin : String :=
  "import('./b');\nimport(f(import(\"./\\u0062\"), import('./c')));\n"

/-- A location with a quote, a backslash, a control character and a letter that is not ASCII. -/
def oddLocation : String := "/\"\\\x01é/m.js"

theorem callsWithin_are_known :
    ∃ linked program p quoted, ∃ calls : List Site, ∃ deps,
      Reader.own.read (Dialect.ofLocation oddLocation.toList) callsWithin.toList = .ok program ∧
      ofSource .own callsWithin oddLocation (Dialect.ofLocation oddLocation.toList) {} =
        .ok linked ∧
      (∀ s, s ∈ calls ↔ ∃ n ∈ Program.statements program, Loads s n) ∧
      List.Forall₂ (fun s dep => ∃ raw,
          Preresolved .own callsWithin oddLocation quoted p linked s raw dep)
        (calls.filter (·.literal.isSome)) deps ∧
      linked.report.dynamic = deps.eraseDups ∧ p.edits.length = 8 ∧
      deps.eraseDups.map (·.text) = ["/\"\\\x01é/b", "/\"\\\x01é/c"] := by
  obtain ⟨program, p, linked, hread, hnested, hplain, hp, hlinked, hcheck⟩ :=
    @links_of_check (Dialect.ofLocation oddLocation.toList) callsWithin oddLocation {}
      (fun _ p => p.edits.length = 8 ∧
        p.report.dynamic.map (·.text) = ["/\"\\\x01é/b", "/\"\\\x01é/c"]) (by decide +kernel)
  obtain ⟨hedits, hdeps⟩ := of_decide_eq_true hcheck
  have hlaid : Laid callsWithin.toList 0 callsWithin.toList.length program.statements := by
    rw [Reader.own_read] at hread
    exact laid_of_read hread
  obtain ⟨p', quoted, calls, deps, hp', hreport, -, hcalls, -, hresolved, hdynamic⟩ :=
    dynamic_of_ofSource own_readsCalls hread hnested hplain hlaid.bare hlinked
  cases hp.symm.trans hp'
  refine ⟨linked, program, p, quoted, calls, deps, hread, hlinked, hcalls, hresolved, hdynamic,
    hedits, ?_⟩
  rw [← hdynamic, hreport]
  exact hdeps

end ScriptLoader.Compile.Linked
