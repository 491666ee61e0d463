import Mathlib.Data.List.Forall2
import Mathlib.Data.List.Pairwise
import ScriptLoader.Proofs.Compile.Clauses
import ScriptLoader.Proofs.Compile.Splice

/-!
# The edits of calls that load modules

Each call has two edits, one for what stands in front of its argument and one for all that stands
behind it, its options included. The edits of a call inside of an argument go between the two; those
of a call inside of the options are inside of what the outer call's second edit removes.

* `Linked.callsNested`: the spans of the calls in a tree are nested as the tree is.
* `Linked.callInOptions`: a call stands inside of the options of another one.
* `Linked.spread_sites`: the edits of a tree's calls are apart exactly if that is not so.
* `Linked.plan_ok`: a plan is what the declarations make of the empty one, and the edits and the
  dependencies of the calls.
* `Linked.breaks_down_iff_call_in_options`: linking a source breaks down exactly if it is so.
-/

namespace ScriptLoader.Compile.Linked

open Syntax

variable {R : Reader} {dialect : Dialect}

/-! ## Nested calls -/

/-- The span `s` lies within `t`. -/
def Within (s t : Span) : Prop := t.start ≤ s.start ∧ s.stop ≤ t.stop

instance (s t : Span) : Decidable (Within s t) := inferInstanceAs (Decidable (_ ∧ _))

instance (s t : Span) : Decidable (Apart s t) := inferInstanceAs (Decidable (_ ∨ _))

/-- A call has characters in front of its argument, and behind it. -/
def Site.Sound (s : Site) : Prop :=
  s.span.start < s.argument.start ∧ s.argument.start ≤ s.argument.stop ∧
    s.argument.stop < s.span.stop

instance (s : Site) : Decidable s.Sound := inferInstanceAs (Decidable (_ ∧ _ ∧ _))

mutual

/-- Whether the spans of the calls in a tree are nested as the tree is: a call surrounds its
argument, the calls in the argument lie within it and those in the options behind it, and calls of
different branches are apart. -/
def callsNested : Node → Bool
  | .mk .importCall _ _ span (argument :: options) =>
    decide (Site.Sound ⟨span, argument.span, none⟩) &&
      (sites argument).all (fun s => decide (Within s.span argument.span)) &&
      (sitesAll options).all (fun s => decide (Within s.span ⟨argument.span.stop, span.stop⟩)) &&
      callsNested argument && callsNestedAll options
  | .mk _ _ _ _ cs => callsNestedAll cs

def callsNestedAll : List Node → Bool
  | [] => true
  | c :: cs =>
    callsNested c && callsNestedAll cs &&
      (sites c).all fun s => (sitesAll cs).all fun t => decide (Apart s.span t.span)

end

mutual

/-- Whether a call stands inside of the options of another one. -/
def callInOptions : Node → Bool
  | .mk .importCall _ _ _ (argument :: options) =>
    !(sitesAll options).isEmpty || callInOptions argument
  | .mk _ _ _ _ cs => callInOptionsAny cs

def callInOptionsAny : List Node → Bool
  | [] => false
  | c :: cs => callInOptions c || callInOptionsAny cs

end

/-- The spans that the edits of a call replace. -/
def Site.spans (s : Site) : List Span :=
  [⟨s.span.start, s.argument.start⟩, ⟨s.argument.stop, s.span.stop⟩]

/-- The edits of one call are apart from those of another. -/
def Site.Apart (s t : Site) : Prop := ∀ x ∈ s.spans, ∀ y ∈ t.spans, Compile.Apart x y

theorem Site.Apart.symm {s t : Site} (h : s.Apart t) : t.Apart s :=
  fun x hx y hy => (h y hy x hx).symm

theorem Site.apart_iff {s t : Site} : s.Apart t ↔
    Compile.Apart ⟨s.span.start, s.argument.start⟩ ⟨t.span.start, t.argument.start⟩ ∧
    Compile.Apart ⟨s.span.start, s.argument.start⟩ ⟨t.argument.stop, t.span.stop⟩ ∧
    Compile.Apart ⟨s.argument.stop, s.span.stop⟩ ⟨t.span.start, t.argument.start⟩ ∧
    Compile.Apart ⟨s.argument.stop, s.span.stop⟩ ⟨t.argument.stop, t.span.stop⟩ := by
  simp [Site.Apart, Site.spans, and_assoc]

/-- Calls whose spans are apart have edits that are. -/
theorem Site.apart_of_span {s t : Site} (hs : s.Sound) (ht : t.Sound)
    (h : Compile.Apart s.span t.span) : s.Apart t := by
  simp only [Site.apart_iff, Compile.Apart, Site.Sound] at hs ht h ⊢
  omega

/-- A call within the argument of another one. -/
theorem Site.apart_of_argument {s t : Site} (ht : t.Sound) (h : Within t.span s.argument) :
    s.Apart t := by
  simp only [Site.apart_iff, Compile.Apart, Site.Sound, Within] at ht h ⊢
  omega

/-- A call within the options of another one. -/
theorem Site.not_apart_of_options {s t : Site} (ht : t.Sound)
    (h : Within t.span ⟨s.argument.stop, s.span.stop⟩) : ¬ s.Apart t := by
  simp only [Site.apart_iff, Compile.Apart, Site.Sound, Within] at ht h ⊢
  omega

/-- How a tree looks to the walk for calls: it is a call, or only its children matter. -/
theorem call_or_children (n : Node) :
    (∃ marks text span argument options,
      n = .mk .importCall marks text span (argument :: options)) ∨
    sites n = sitesAll n.children ∧ callsNested n = callsNestedAll n.children ∧
      callInOptions n = callInOptionsAny n.children := by
  obtain ⟨kind, marks, text, span, cs⟩ := n
  by_cases hcall : ∃ argument options, kind = .importCall ∧ cs = argument :: options
  · obtain ⟨argument, options, rfl, rfl⟩ := hcall
    exact Or.inl ⟨_, _, _, _, _, rfl⟩
  · have hno : ∀ argument options, kind = .importCall → cs ≠ argument :: options :=
      fun argument options hk hc => hcall ⟨argument, options, hk, hc⟩
    refine Or.inr ⟨?_, ?_, ?_⟩
    · rw [sites]
      · rfl
      · exact hno
    · rw [callsNested]
      · rfl
      · exact hno
    · rw [callInOptions]
      · rfl
      · exact hno

/-- The calls of a tree surround their arguments, and their edits are apart exactly if none stands
inside of the options of another one. -/
structure Spread (ss : List Site) (crossed : Bool) : Prop where
  sound : ∀ s ∈ ss, s.Sound
  apart : ss.Pairwise Site.Apart ↔ crossed = false

theorem spread_nil : Spread [] false := ⟨by simp, by simp⟩

/-- Two groups of calls whose edits are apart from each other. -/
theorem Spread.append {ss ts : List Site} {b c : Bool} (hs : Spread ss b) (ht : Spread ts c)
    (h : ∀ s ∈ ss, ∀ t ∈ ts, s.Apart t) : Spread (ss ++ ts) (b || c) := by
  constructor
  · intro s hmem
    exact (List.mem_append.1 hmem).elim (hs.sound s) (ht.sound s)
  · rw [List.pairwise_append, hs.apart, ht.apart, Bool.or_eq_false_iff]
    exact ⟨fun ⟨hb, hc, _⟩ => ⟨hb, hc⟩, fun ⟨hb, hc⟩ => ⟨hb, hc, h⟩⟩

theorem spread_sitesAll {cs : List Node}
    (h : ∀ c ∈ cs, callsNested c = true → Spread (sites c) (callInOptions c))
    (hcs : callsNestedAll cs = true) : Spread (sitesAll cs) (callInOptionsAny cs) := by
  induction cs with
  | nil => exact spread_nil
  | cons c cs ih =>
    obtain ⟨hc, hrest⟩ := List.forall_mem_cons.1 h
    simp only [callsNestedAll, Bool.and_eq_true, List.all_eq_true, decide_eq_true_eq] at hcs
    obtain ⟨⟨hnested, hcs⟩, happart⟩ := hcs
    have hfirst := hc hnested
    have hothers := ih hrest hcs
    simp only [sitesAll, callInOptionsAny]
    exact hfirst.append hothers fun s hs t ht =>
      Site.apart_of_span (hfirst.sound s hs) (hothers.sound t ht) (happart s hs t ht)

/-- A call around those in its argument and those in its options. -/
theorem Spread.call {s : Site} {inner options : List Site} {b c : Bool} (hs : s.Sound)
    (hinner : Spread inner b) (hoptions : Spread options c)
    (hin : ∀ t ∈ inner, Within t.span s.argument)
    (hbehind : ∀ t ∈ options, Within t.span ⟨s.argument.stop, s.span.stop⟩) :
    Spread (s :: (inner ++ options)) (!options.isEmpty || b) := by
  constructor
  · simp only [List.forall_mem_cons, List.mem_append]
    exact ⟨hs, fun t ht => ht.elim (hinner.sound t) (hoptions.sound t)⟩
  · have hargument : ∀ t ∈ inner, s.Apart t := fun t ht =>
      Site.apart_of_argument (hinner.sound t ht) (hin t ht)
    cases options with
    | nil => simpa [hinner.apart] using fun _ => hargument
    | cons t options =>
      have hcrossed : ¬ s.Apart t := Site.not_apart_of_options
        (hoptions.sound t List.mem_cons_self) (hbehind t List.mem_cons_self)
      simp only [List.isEmpty_cons, Bool.not_false, Bool.true_or, Bool.true_eq_false, iff_false,
        List.pairwise_cons]
      exact fun h => hcrossed (h.1 t (by simp))

theorem spread_sites (n : Node) (h : callsNested n = true) :
    Spread (sites n) (callInOptions n) := by
  match n with
  | .mk kind marks text span cs =>
    have hcs : ∀ c ∈ cs, callsNested c = true → Spread (sites c) (callInOptions c) :=
      fun c _ hc => spread_sites c hc
    rcases call_or_children (.mk kind marks text span cs) with
      ⟨_, _, _, argument, options, heq⟩ | ⟨hsites, hnested, hcrossed⟩
    · cases heq
      obtain ⟨hargument, hoptions⟩ := List.forall_mem_cons.1 hcs
      simp only [callsNested, Bool.and_eq_true, List.all_eq_true, decide_eq_true_eq] at h
      obtain ⟨⟨⟨⟨hsound, hin⟩, hbehind⟩, ha⟩, ho⟩ := h
      simp only [sites, callInOptions]
      exact .call hsound (hargument ha) (spread_sitesAll hoptions ho) hin hbehind
    · rw [hsites, hcrossed]
      exact spread_sitesAll hcs (hnested ▸ h)

/-! ## The steps of a plan -/

theorem dependency_ok_iff {raw location : String} {dep : Specifier} :
    dependency raw location = .ok dep ↔ Specifier.resolve raw location = .ok dep := by
  unfold dependency
  cases Specifier.resolve raw location <;> simp

/-- A call has a string, which names the dependency. -/
def Names (location : String) (s : Site) (dep : Specifier) : Prop :=
  ∃ raw, s.literal = some raw ∧ Specifier.resolve raw location = .ok dep

theorem sortSites_perm (ss : List Site) : (sortSites ss).Perm ss := List.mergeSort_perm _ _

theorem sorted_sortSites (ss : List Site) :
    (sortSites ss).Pairwise fun s t => s.span.start ≤ t.span.start :=
  pairwise_mergeSort_place (fun s => s.span.start) ss

section

variable {source : List Char} {location : String} {p q : Plan}

/-- One call adds its edits, and its dependency if it has a string. -/
theorem addSite_ok {s : Site} (h : addSite location p s = .ok q) :
    ∃ deps, List.Forall₂ (Names location) ([s].filter (·.literal.isSome)) deps ∧
      q = { p with
        edits := p.edits ++ siteEdits location s
        report := deps.foldl Report.pushDynamic p.report } := by
  unfold addSite at h
  dsimp only at h
  split at h
  · next hnone =>
    cases h
    exact ⟨[], by simp [hnone], rfl⟩
  · next raw hraw =>
    split at h
    · cases h
    · next dep hdep =>
      cases h
      refine ⟨[dep], ?_, rfl⟩
      rw [List.filter_cons_of_pos (by simp [hraw])]
      exact .cons ⟨raw, hraw, dependency_ok_iff.1 hdep⟩ .nil

/-- Calls add their edits one after the other, and the dependencies of those that have strings. -/
theorem addSites_ok {ss : List Site} (h : addSites location p ss = .ok q) :
    ∃ deps, List.Forall₂ (Names location) (ss.filter (·.literal.isSome)) deps ∧
      q = { p with
        edits := p.edits ++ ss.flatMap (siteEdits location)
        report := deps.foldl Report.pushDynamic p.report } := by
  induction ss generalizing p with
  | nil =>
    cases h
    exact ⟨[], .nil, by simp⟩
  | cons s ss ih =>
    unfold addSites at h
    split at h
    · cases h
    · next r hr =>
      obtain ⟨first, hfirst, rfl⟩ := addSite_ok hr
      obtain ⟨rest, hrest, rfl⟩ := ih h
      refine ⟨first ++ rest, ?_, ?_⟩
      · rw [← List.singleton_append, List.filter_append]
        exact List.rel_append hfirst hrest
      · simp [List.foldl_append]

/-- The first statement is gone through, and the others with the plan that it leaves. -/
theorem declarations_cons {retained : Node → Bool} {n : Node} {ns : List Node}
    (h : declarations source location retained p (n :: ns) = .ok q) :
    ∃ r, declaration source location retained p n = .ok r ∧
      declarations source location retained r ns = .ok q := by
  unfold declarations at h
  split at h
  · cases h
  · next r hr => exact ⟨r, hr, h⟩

/-- What a plan is: the calls in the order of their places are added to what the declarations
make of the empty one. -/
theorem plan_ok {program : Program} {options : Options}
    (h : plan R dialect program source location options = .ok p) :
    ∃ q deps, declarations source location (retains R dialect program options)
        { report := { isModule := program.statements.any isModuleSyntax } } program.statements =
          .ok q ∧
      List.Forall₂ (Names location)
        ((sortSites (sitesAll program.statements)).filter (·.literal.isSome)) deps ∧
      p = { q with
        edits := q.edits ++ (sortSites (sitesAll program.statements)).flatMap (siteEdits location)
        report := deps.foldl Report.pushDynamic q.report } := by
  unfold plan at h
  dsimp only at h
  split at h
  · cases h
  · next q hd =>
    obtain ⟨deps, hdeps, hp⟩ := addSites_ok h
    exact ⟨q, deps, hd, hdeps, hp⟩

end

/-! ## The edits of a plan -/

/-- The number of temporaries that a statement takes. -/
def temporariesOf : Node → Nat
  | .mk .exportNames marks _ _ [names, raw, _] =>
    if raw.isAbsent || marks.contains .typeOnly then 0
    else (names.children.filter fun i => !(i.has .typeOnly)).length
  | .mk .exportAll marks _ _ [_, _, _] => if marks.contains .typeOnly then 0 else 1
  | _ => 0

/-- The line feeds of a span. -/
def feeds (source : List Char) (s : Span) : List Char :=
  List.replicate (lineFeeds (slice source s)) '\n'

/-- A list that exports the temporaries from a number on under names. -/
def exportClause (first : Nat) (names : List String) : List Char :=
  ("export \x7b " ++ ", ".intercalate ((names.zipIdx first).map fun (name, k) =>
    "__tsb_reexport_" ++ toString k ++ " as " ++ key name) ++ " \x7d;").toList

/-- The names under which an export list exports values. -/
def exportedValues (names : Node) : List String :=
  (names.children.filter fun i => !(i.has .typeOnly)).map fun i => (i.child 1).text

theorem localExports_reexports (first : Nat) (names : Node) :
    localExports ((reexports first names.children).map (·.2)) =
      exportClause first (exportedValues names) := by
  simp only [localExports, exportClause, reexports, exportedValues, commas, List.map_map,
    List.zipIdx_map, List.zipIdx_eq_map_add (i := first)]
  rfl

/-- What stands in the place of a declaration that is replaced: a list of exports if values are
exported from elsewhere, else the line feeds of the declaration. `first` temporaries were taken
before. -/
def replacement (source : List Char) (first : Nat) : Node → List Char
  | .mk .exportNames marks _ span [names, _, _] =>
    if marks.contains .typeOnly then feeds source span
    else exportClause first (exportedValues names)
  | .mk .exportAll marks _ span [_, exported, _] =>
    if marks.contains .typeOnly then feeds source span else exportClause first [exported.text]
  | n => feeds source n.span

/-- The edit of a declaration, if it is replaced. -/
def declarationEdits (source : List Char) (first : Nat) (n : Node) : List Edit :=
  if isReplaced n then [⟨n.span, replacement source first n⟩] else []

theorem declaration_edits {source : List Char} {location : String} {retained : Node → Bool}
    {p q : Plan} {n : Node} (h : declaration source location retained p n = .ok q) :
    q.edits = p.edits ++ declarationEdits source p.temporaries n ∧
      q.temporaries = p.temporaries + temporariesOf n := by
  unfold declaration at h
  split at h
  · repeat' first
      | split at h
      | dsimp only at h
    all_goals
      cases h
      try exact ⟨rfl, rfl⟩
  · next marks text span names raw attributes =>
    cases hs : raw.isAbsent with
    | true =>
      rw [hs] at h
      cases h
      simp [declarationEdits, isReplaced, temporariesOf, hs]
    | false =>
      rw [hs, if_neg Bool.false_ne_true] at h
      cases ht : marks.contains .typeOnly with
      | true =>
        rw [ht] at h
        cases h
        simp only [declarationEdits, isReplaced, replacement, temporariesOf, hs, ht]
        exact ⟨rfl, rfl⟩
      | false =>
        rw [ht, if_neg Bool.false_ne_true] at h
        split at h
        · cases h
        · cases h
          simp only [declarationEdits, isReplaced, replacement, temporariesOf, hs, ht]
          rw [localExports_reexports]
          exact ⟨rfl, by simp [reexports, Plan.withHoists, Plan.withStatic]⟩
  · next marks text span raw exported attributes =>
    cases ht : marks.contains .typeOnly with
    | true =>
      rw [ht] at h
      cases h
      simp only [declarationEdits, isReplaced, replacement, temporariesOf, ht]
      exact ⟨rfl, rfl⟩
    | false =>
      rw [ht, if_neg Bool.false_ne_true] at h
      split at h
      · cases h
      · split at h
        · cases h
        · cases h
          simp only [declarationEdits, isReplaced, replacement, temporariesOf, ht]
          exact ⟨rfl, rfl⟩
  · next himport hexport hall =>
    cases h
    have hkept : isReplaced n = false := by
      unfold isReplaced
      split
      · exact (himport _ _ _ _ _ _ rfl).elim
      · exact (hexport _ _ _ _ _ _ rfl).elim
      · exact (hall _ _ _ _ _ _ rfl).elim
      · rfl
    have hnone : temporariesOf n = 0 := by
      unfold temporariesOf
      split
      · exact (hexport _ _ _ _ _ _ rfl).elim
      · exact (hall _ _ _ _ _ _ rfl).elim
      · rfl
    simp [declarationEdits, hkept, hnone]

theorem spans_siteEdits (location : String) (s : Site) :
    (siteEdits location s).map (·.span) = s.spans := rfl

theorem spans_declarations {source : List Char} {location : String} {retained : Node → Bool}
    {p q : Plan} {ns : List Node} (h : declarations source location retained p ns = .ok q) :
    q.edits.map (·.span) =
      p.edits.map (·.span) ++ (ns.filter isReplaced).map (·.span) := by
  induction ns generalizing p with
  | nil =>
    cases h
    simp
  | cons n ns ih =>
    obtain ⟨r, hr, hrest⟩ := declarations_cons h
    rw [ih hrest, (declaration_edits hr).1, declarationEdits, List.filter_cons]
    split <;> simp

/-- What the edits of a plan replace. -/
theorem spans_plan {program : Program} {source : List Char} {location : String}
    {options : Options} {p : Plan} (h : plan R dialect program source location options = .ok p) :
    p.edits.map (·.span) = (program.statements.filter isReplaced).map (·.span) ++
      (sortSites (sitesAll program.statements)).flatMap Site.spans := by
  obtain ⟨q, deps, hd, -, rfl⟩ := plan_ok h
  simp [spans_declarations hd, List.map_flatMap, spans_siteEdits]

/-! ## Linking -/

/-- The spans of a program are nested as its statements and calls are: the statements stand one
behind the other in the source, each with the calls that are in it, and the calls are nested. -/
structure SpansNested (statements : List Node) (size : Nat) : Prop where
  inBounds : ∀ n ∈ statements, n.span.start < n.span.stop ∧ n.span.stop ≤ size
  inOrder : statements.Pairwise fun n m => n.span.stop ≤ m.span.start
  within : ∀ n ∈ statements, ∀ s ∈ sites n, Within s.span n.span
  nested : ∀ n ∈ statements, callsNested n = true

instance (statements : List Node) (size : Nat) : Decidable (SpansNested statements size) :=
  decidable_of_iff
    ((∀ n ∈ statements, n.span.start < n.span.stop ∧ n.span.stop ≤ size) ∧
      (statements.Pairwise fun n m => n.span.stop ≤ m.span.start) ∧
      (∀ n ∈ statements, ∀ s ∈ sites n, Within s.span n.span) ∧
      ∀ n ∈ statements, callsNested n = true)
    ⟨fun ⟨hb, ho, hw, hn⟩ => ⟨hb, ho, hw, hn⟩, fun ⟨hb, ho, hw, hn⟩ => ⟨hb, ho, hw, hn⟩⟩

theorem mem_sitesAll {s : Site} {cs : List Node} :
    s ∈ sitesAll cs ↔ ∃ c ∈ cs, s ∈ sites c := by
  induction cs with
  | nil => simp [sitesAll]
  | cons c cs ih => simp [sitesAll, ih]

namespace SpansNested

variable {statements : List Node} {size : Nat}

theorem callsNestedAll (h : SpansNested statements size) :
    Linked.callsNestedAll statements = true := by
  obtain ⟨-, hinOrder, hwithin, hnested⟩ := h
  induction statements with
  | nil => rfl
  | cons n ns ih =>
    obtain ⟨hfirst, hrest⟩ := List.pairwise_cons.1 hinOrder
    obtain ⟨hn, hns⟩ := List.forall_mem_cons.1 hwithin
    obtain ⟨hnested, hnesteds⟩ := List.forall_mem_cons.1 hnested
    simp only [Linked.callsNestedAll, Bool.and_eq_true, List.all_eq_true, decide_eq_true_eq]
    refine ⟨⟨hnested, ih hrest hns hnesteds⟩, fun s hs t ht => ?_⟩
    obtain ⟨m, hm, ht⟩ := mem_sitesAll.1 ht
    have hsn := hn s hs
    have htm := hns m hm t ht
    have hle := hfirst m hm
    simp only [Within] at hsn htm
    exact Or.inl (by omega)

theorem apart_statements (h : SpansNested statements size) {n m : Node} (hn : n ∈ statements)
    (hm : m ∈ statements) (hne : n ≠ m) : Apart n.span m.span := by
  have hsymm : Std.Symm fun n m : Node => Apart n.span m.span := ⟨fun _ _ h => h.symm⟩
  have happart : statements.Pairwise fun n m => Apart n.span m.span := h.inOrder.imp Or.inl
  exact happart.forall hn hm hne

theorem spread (h : SpansNested statements size) :
    Spread (sitesAll statements) (callInOptionsAny statements) :=
  spread_sitesAll (fun n _ => spread_sites n) h.callsNestedAll

/-- What the edits of a call replace is within its statement. -/
theorem within_of_mem_sites (h : SpansNested statements size) {n : Node} (hn : n ∈ statements)
    {s : Site} (hs : s ∈ sites n) {x : Span} (hx : x ∈ s.spans) :
    x.start < x.stop ∧ Within x n.span := by
  have hsound := h.spread.sound s (mem_sitesAll.2 ⟨n, hn, hs⟩)
  have hwithin := h.within n hn s hs
  suffices hx : x.start < x.stop ∧ Within x s.span by
    exact ⟨hx.1, Nat.le_trans hwithin.1 hx.2.1, Nat.le_trans hx.2.2 hwithin.2⟩
  simp only [Site.spans, List.mem_cons, List.not_mem_nil, or_false] at hx
  simp only [Site.Sound] at hsound
  rcases hx with rfl | rfl
  · simp only [Within]
    omega
  · simp only [Within]
    omega

theorem within_of_mem_spans (h : SpansNested statements size) {s : Site}
    (hs : s ∈ sitesAll statements) {x : Span} (hx : x ∈ s.spans) :
    x.start < x.stop ∧ ∃ n ∈ statements, s ∈ sites n ∧ Within x n.span := by
  obtain ⟨n, hn, hs⟩ := mem_sitesAll.1 hs
  obtain ⟨hlt, hwithin⟩ := h.within_of_mem_sites hn hs hx
  exact ⟨hlt, n, hn, hs, hwithin⟩

/-- What the declarations replace is apart from what the calls do. -/
theorem apart_declarations (h : SpansNested statements size)
    (hplain : ∀ n ∈ statements, Plain n) {n : Node} (hn : n ∈ statements)
    (hr : isReplaced n = true) {s : Site} (hs : s ∈ sitesAll statements) {x : Span}
    (hx : x ∈ s.spans) : Apart n.span x := by
  obtain ⟨-, m, hm, hs, hwithin⟩ := h.within_of_mem_spans hs hx
  have hne : n ≠ m := by
    rintro rfl
    rw [hplain n hn hr] at hs
    cases hs
  have happart := h.apart_statements hn hm hne
  simp only [Within, Apart] at hwithin happart ⊢
  omega

end SpansNested

/-- The edits of a plan replace characters of the source. -/
theorem fits_of_plan {program : Program} {source : List Char} {location : String}
    {options : Options} {p : Plan} (hn : SpansNested program.statements source.length)
    (h : plan R dialect program source location options = .ok p) :
    ∀ e ∈ p.edits, e.Fits source.length := by
  intro e he
  have hmem := List.mem_map_of_mem (f := Edit.span) he
  rw [spans_plan h, List.mem_append, List.mem_map, List.mem_flatMap] at hmem
  rcases hmem with ⟨n, hmem, hspan⟩ | ⟨s, hs, hx⟩
  · have hbounds := hn.inBounds n (List.mem_filter.1 hmem).1
    rw [hspan] at hbounds
    exact hbounds
  · obtain ⟨hlt, n, hmem, -, hwithin⟩ := hn.within_of_mem_spans (List.mem_mergeSort.1 hs) hx
    exact ⟨hlt, Nat.le_trans hwithin.2 (hn.inBounds n hmem).2⟩

/-- The edits of a plan are apart exactly if no call stands inside of the options of another one. -/
theorem apart_edits_iff {program : Program} {source : List Char} {location : String}
    {options : Options} {p : Plan} (hplain : ∀ n ∈ program.statements, Plain n)
    (hn : SpansNested program.statements source.length)
    (h : plan R dialect program source location options = .ok p) :
    p.edits.Pairwise Edit.Apart ↔ callInOptionsAny program.statements = false := by
  have hedits : (p.edits.map (·.span)).Pairwise Apart ↔ p.edits.Pairwise Edit.Apart :=
    List.pairwise_map
  have hdeclarations : ((program.statements.filter isReplaced).map (·.span)).Pairwise Apart :=
    List.pairwise_map.2 ((hn.inOrder.imp Or.inl).filter _)
  have hsorted : ∀ s, s ∈ sortSites (sitesAll program.statements) →
      s ∈ sitesAll program.statements := fun s => List.mem_mergeSort.1
  have hone : ∀ s ∈ sortSites (sitesAll program.statements), s.spans.Pairwise Apart := by
    intro s hs
    have hsound := hn.spread.sound s (hsorted s hs)
    simp only [Site.spans, List.pairwise_cons, List.mem_singleton, forall_eq, List.not_mem_nil,
      false_implies, implies_true, List.Pairwise.nil, and_true]
    exact Or.inl hsound.2.1
  have hcalls : (sortSites (sitesAll program.statements)).Pairwise Site.Apart ↔
      callInOptionsAny program.statements = false :=
    ((sortSites_perm _).pairwise_iff Site.Apart.symm).trans hn.spread.apart
  rw [← hedits, spans_plan h, List.pairwise_append, List.pairwise_flatMap]
  refine ⟨fun ⟨_, ⟨_, hc⟩, _⟩ => hcalls.1 hc, fun hc => ⟨hdeclarations, ⟨hone, hcalls.2 hc⟩, ?_⟩⟩
  intro x hx y hy
  obtain ⟨n, hmem, rfl⟩ := List.mem_map.1 hx
  obtain ⟨hmem, hr⟩ := List.mem_filter.1 hmem
  obtain ⟨s, hs, hy⟩ := List.mem_flatMap.1 hy
  exact hn.apart_declarations hplain hmem hr (hsorted s hs) hy

theorem ofSource_of_plan {source location : String} {dialect : Dialect} {options : Options}
    {program : Program} {p : Plan} (hread : R.read dialect source.toList = .ok program)
    (hp : plan R dialect program source.toList location options = .ok p) :
    ((∃ linked, ofSource R source location dialect options = .ok linked) ↔
      ∃ text, splice source.toList p.edits = .ok text) ∧
    ((∃ gap, ofSource R source location dialect options = .error (.breakdown gap)) ↔
      ¬ ∃ text, splice source.toList p.edits = .ok text) := by
  simp only [ofSource, hread, hp, Plan.apply]
  cases splice source.toList p.edits <;> simp [Except.map]

/-- Where linking returns, the source is a program, and the plan for it can be applied. -/
theorem parts_of_ofSource {source location : String} {dialect : Dialect} {options : Options}
    {linked : Linked} (h : ofSource R source location dialect options = .ok linked) :
    ∃ program p rest, R.read dialect source.toList = .ok program ∧
      plan R dialect program source.toList location options = .ok p ∧
      splice source.toList p.edits = .ok rest ∧
      linked.code.toList = preface p.hoists ++ rest ∧ linked.report = p.report := by
  unfold ofSource at h
  split at h
  · cases h
  · next program hread =>
    split at h
    · cases h
    · next p hp =>
      split at h
      · cases h
      · next code hcode =>
        cases h
        unfold Plan.apply at hcode
        cases hs : splice source.toList p.edits with
        | error gap =>
          rw [hs] at hcode
          cases hcode
        | ok rest =>
          rw [hs] at hcode
          cases hcode
          exact ⟨program, p, rest, hread, hp, hs, String.toList_ofList, rfl⟩

/-- A source that is a program whose spans are nested, and in which what is replaced as a whole holds
no calls: the edits of its plan are in bounds, they are apart from each other exactly if no call
stands inside of the options of another one, and linking returns exactly then. Otherwise it breaks
down, at a gap between two edits that is not there. -/
theorem breaks_down_iff_call_in_options {source location : String} {options : Options}
    {program : Program} (hread : R.read dialect source.toList = .ok program)
    (hn : SpansNested program.statements source.toList.length)
    (hplain : ∀ n ∈ program.statements, Plain n) :
    (∀ p, plan R dialect program source.toList location options = .ok p →
      (∀ e ∈ p.edits, e.Fits source.toList.length) ∧
      (p.edits.Pairwise Edit.Apart ↔ callInOptionsAny program.statements = false) ∧
      ((∃ linked, ofSource R source location dialect options = .ok linked) ↔
        callInOptionsAny program.statements = false)) ∧
    ((∃ gap, ofSource R source location dialect options = .error (.breakdown gap)) ↔
      (∃ p, plan R dialect program source.toList location options = .ok p) ∧
        callInOptionsAny program.statements = true) := by
  have hreturns : ∀ p, plan R dialect program source.toList location options = .ok p →
      ((∃ text, splice source.toList p.edits = .ok text) ↔
        callInOptionsAny program.statements = false) := fun p hp =>
    (splice_ok_iff (fits_of_plan hn hp)).trans (apart_edits_iff hplain hn hp)
  constructor
  · intro p hp
    exact ⟨fits_of_plan hn hp, apart_edits_iff hplain hn hp,
      (ofSource_of_plan hread hp).1.trans (hreturns p hp)⟩
  · cases hp : plan R dialect program source.toList location options with
    | error e => simp [ofSource, hread, hp]
    | ok p =>
      rw [(ofSource_of_plan hread hp).2, hreturns p hp]
      simp

/-- A call with another one in its options. -/
def crossing : String := "import('./a', import('./b'));"

/-- The plan of a program whose calls are found in the order of their places. -/
theorem plan_of_sorted {program : Program} {source : List Char} {location : String}
    {options : Options} {p q : Plan}
    (hs : (sitesAll program.statements).Pairwise fun s t => s.span.start ≤ t.span.start)
    (hd : declarations source location (retains R dialect program options)
      { report := { isModule := program.statements.any isModuleSyntax } } program.statements =
        .ok q)
    (ha : addSites location q (sitesAll program.statements) = .ok p) :
    plan R dialect program source location options = .ok p := by
  have hsorted : sortSites (sitesAll program.statements) = sitesAll program.statements :=
    List.mergeSort_of_pairwise (hs.imp decide_eq_true)
  simp only [plan, hd, hsorted, ha]

/-- What can be evaluated of a source: it is a program with nested spans, and its plan passes a
check. -/
theorem planned_of_check {source location : String} {options : Options}
    {check : Program → Plan → Bool}
    (h : (R.read dialect source.toList).toOption.any (fun program =>
      decide (SpansNested program.statements source.toList.length) &&
        decide ((sitesAll program.statements).Pairwise fun s t => s.span.start ≤ t.span.start) &&
        (declarations source.toList location (retains R dialect program options)
          { report := { isModule := program.statements.any isModuleSyntax } }
          program.statements).toOption.any fun q =>
            (addSites location q (sitesAll program.statements)).toOption.any (check program)) =
      true) :
    ∃ program p, R.read dialect source.toList = .ok program ∧
      SpansNested program.statements source.toList.length ∧
      plan R dialect program source.toList location options = .ok p ∧ check program p = true := by
  cases hread : R.read dialect source.toList with
  | error e => simp [hread, Except.toOption] at h
  | ok program =>
    simp only [hread, Except.toOption, Option.any_some, Bool.and_eq_true, decide_eq_true_eq] at h
    obtain ⟨⟨hnested, hsorted⟩, hok⟩ := h
    cases hd : declarations source.toList location (retains R dialect program options)
        { report := { isModule := program.statements.any isModuleSyntax } } program.statements with
    | error e => simp [hd] at hok
    | ok q =>
      cases ha : addSites location q (sitesAll program.statements) with
      | error e => simp [hd, ha] at hok
      | ok p =>
        exact ⟨program, p, rfl, hnested, plan_of_sorted hsorted hd ha, by simpa [hd, ha] using hok⟩

theorem crossing_breaks_down :
    ∃ program, Reader.own.read (Dialect.ofLocation "/a.ts".toList) crossing.toList = .ok program ∧
      SpansNested program.statements crossing.toList.length ∧
      (∀ n ∈ program.statements, Plain n) ∧
      ∃ gap, ofSource .own crossing "/a.ts" (Dialect.ofLocation "/a.ts".toList) {} =
        .error (.breakdown gap) := by
  obtain ⟨program, p, hread, hnested, hp, hcrossed⟩ := @planned_of_check .own
    (Dialect.ofLocation "/a.ts".toList) crossing "/a.ts" {}
    (fun program _ => callInOptionsAny program.statements) (by decide +kernel)
  have hplain : ∀ n ∈ program.statements, Plain n := by
    rw [Reader.own_read] at hread
    exact plain_of_read hread
  obtain ⟨-, hiff⟩ := breaks_down_iff_call_in_options hread hnested hplain
  exact ⟨program, hread, hnested, hplain, hiff.2 ⟨⟨p, hp⟩, hcrossed⟩⟩

-- The calls inside of types are calls of the source.
example : (Reader.own.read (Dialect.ofLocation "/a.ts".toList)
    "interface A \x7b [import('./a', import('./b'))]: string \x7d".toList).toOption.map
      (fun program => callInOptionsAny program.statements) = some true := by decide +kernel

end ScriptLoader.Compile.Linked
