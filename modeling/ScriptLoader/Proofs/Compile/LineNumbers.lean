import ScriptLoader.Proofs.Compile.OneLine

/-!
# The lines of linked text

Imports and exports of types leave their line feeds behind, so that what follows stays on its line.
Exports of values from elsewhere and what stands around the arguments of calls do not: their line
feeds are lost, and what follows moves up.

* `place_of_spliceFrom`: a character outside of all edits, and the line feeds in front of it.
* `Linked.losing`: what is replaced without its line feeds.
* `Linked.Balanced`, `Linked.balanced_plan`: the edits of a plan lose these line feeds and no
  others.
* `Linked.place_of_ofSource`: the line of every character that is not replaced.
-/

namespace ScriptLoader.Compile

open Syntax

variable {R : Reader} {dialect : Dialect}

/-! ## Places behind edits -/

variable {cs : List Char} {es : List Edit} {pos x : Nat}

/-- The line feeds in the texts that edits put in. -/
def feedsPut (es : List Edit) : Nat := lineFeeds (es.flatMap (·.text))

/-- The line feeds in spans of a text. -/
def feedsIn (cs : List Char) (spans : List Span) : Nat :=
  lineFeeds (spans.flatMap (Linked.slice cs))

/-- The edits in front of a place. -/
def editsBefore (x : Nat) (es : List Edit) : List Edit := es.filter fun e => e.span.stop ≤ x

/-- The spans in front of a place. -/
def spansBefore (x : Nat) (spans : List Span) : List Span := spans.filter fun s => s.stop ≤ x

theorem slice_eq_cons {stop : Nat} (hx : x < cs.length) (hstop : x < stop) :
    Linked.slice cs ⟨x, stop⟩ = cs[x] :: Linked.slice cs ⟨x + 1, stop⟩ := by
  have hsize : stop - x = (stop - (x + 1)) + 1 := by omega
  simp only [Linked.slice]
  rw [List.drop_eq_getElem_cons hx, hsize, List.take_succ_cons]

/-- A character outside of all edits stays what it is, and what becomes of the text in front of it
differs in the line feeds of the edits there. -/
theorem place_of_spliceFrom {text : List Char} (h : spliceFrom cs pos es = .ok text)
    (hsorted : es.Pairwise fun e f => e.span.start ≤ f.span.start)
    (hforward : ∀ e ∈ es, e.span.start ≤ e.span.stop) (hpos : pos ≤ x) (hx : x < cs.length)
    (hout : ∀ e ∈ es, x < e.span.start ∨ e.span.stop ≤ x) :
    (∃ after, text = edited cs pos x (editsBefore x es) ++ cs[x] :: after) ∧
      lineFeeds (edited cs pos x (editsBefore x es)) +
          feedsIn cs ((editsBefore x es).map (·.span)) =
        lineFeeds (Linked.slice cs ⟨pos, x⟩) + feedsPut (editsBefore x es) := by
  induction es generalizing pos text with
  | nil =>
    refine ⟨⟨Linked.slice cs ⟨x + 1, cs.length⟩, ?_⟩, rfl⟩
    rw [edited_of_spliceFrom h, ← slice_eq_cons hx hx]
    exact slice_append hpos (Nat.le_of_lt hx)
  | cons e es ih =>
    obtain ⟨hfirst, hothers⟩ := List.pairwise_cons.1 hsorted
    obtain ⟨he, hes⟩ := List.forall_mem_cons.1 hforward
    obtain ⟨hplace, hplaces⟩ := List.forall_mem_cons.1 hout
    obtain ⟨hle, rest, hrest, rfl⟩ := spliceFrom_cons h
    -- Edits are sorted: behind the first one that is not in front of the place, none is.
    by_cases hbefore : e.span.stop ≤ x
    · obtain ⟨⟨after, hafter⟩, hfeeds⟩ := ih hrest hothers hes hbefore hplaces
      have hone : editsBefore x (e :: es) = e :: editsBefore x es := by
        simp [editsBefore, hbefore]
      refine ⟨⟨after, ?_⟩, ?_⟩
      · rw [hone, hafter, edited]
        simp only [List.append_assoc]
      · have hparts : lineFeeds (Linked.slice cs ⟨pos, x⟩) =
            lineFeeds (Linked.slice cs ⟨pos, e.span.start⟩) + lineFeeds (Linked.slice cs e.span) +
              lineFeeds (Linked.slice cs ⟨e.span.stop, x⟩) := by
          rw [slice_append hle (Nat.le_trans he hbefore), slice_append he hbefore,
            Linked.lineFeeds_append, Linked.lineFeeds_append, Nat.add_assoc]
        simp only [hone, edited, Linked.lineFeeds_append, feedsIn, feedsPut, List.map_cons,
          List.flatMap_cons] at hfeeds ⊢
        omega
    · have hstart : x < e.span.start := hplace.resolve_right hbefore
      have hnone : editsBefore x (e :: es) = [] := by
        refine List.filter_eq_nil_iff.2 fun f hf => ?_
        rcases List.mem_cons.1 hf with rfl | hf
        · simpa using hbefore
        · have := hfirst f hf
          have := hes f hf
          simp only [decide_eq_true_eq]
          omega
      refine ⟨⟨Linked.slice cs ⟨x + 1, e.span.start⟩ ++ e.text ++ rest, ?_⟩, ?_⟩
      · rw [hnone, edited, slice_append hpos (Nat.le_of_lt hstart), slice_eq_cons hx hstart]
        simp
      · rw [hnone]
        rfl

namespace Linked

/-! ## Line feeds that are lost -/

/-- Whether a statement exports values from elsewhere. -/
def isReexport (n : Node) : Bool :=
  match n with
  | .mk .exportNames _ _ _ [_, raw, _] => !raw.isAbsent && !n.has .typeOnly
  | .mk .exportAll _ _ _ [_, _, _] => !n.has .typeOnly
  | _ => false

/-- What is replaced without its line feeds: exports from elsewhere, and what stands around the
arguments of calls that load modules. -/
def losing (statements : List Node) : List Span :=
  (statements.filter isReexport).map (·.span) ++ (sitesAll statements).flatMap Site.spans

/-- In front of a place, edits put in as many line feeds as they remove, except for those that are
lost. -/
def Balanced (source : List Char) (x : Nat) (es : List Edit) (lost : List Span) : Prop :=
  feedsIn source ((editsBefore x es).map (·.span)) =
    feedsPut (editsBefore x es) + feedsIn source (spansBefore x lost)

theorem Balanced.append {source : List Char} {x : Nat} {es fs : List Edit} {lost gone : List Span}
    (he : Balanced source x es lost) (hf : Balanced source x fs gone) :
    Balanced source x (es ++ fs) (lost ++ gone) := by
  simp only [Balanced, editsBefore, spansBefore, feedsIn, feedsPut, List.filter_append,
    List.map_append, List.flatMap_append, lineFeeds_append] at he hf ⊢
  omega

theorem Balanced.perm {source : List Char} {x : Nat} {es fs : List Edit} {lost gone : List Span}
    (h : Balanced source x es lost) (hes : es.Perm fs) (hlost : lost.Perm gone) :
    Balanced source x fs gone := by
  have hsum : ∀ {ss ts : List Span}, ss.Perm ts → feedsIn source ss = feedsIn source ts :=
    fun hperm => (hperm.flatMap_right _).count_eq _
  have hbefore := hes.filter fun e => decide (e.span.stop ≤ x)
  have hput : feedsPut (editsBefore x es) = feedsPut (editsBefore x fs) :=
    (hbefore.flatMap_right _).count_eq _
  have hremoved : feedsIn source ((editsBefore x es).map (·.span)) =
      feedsIn source ((editsBefore x fs).map (·.span)) := hsum (hbefore.map _)
  have hspans : feedsIn source (spansBefore x lost) = feedsIn source (spansBefore x gone) :=
    hsum (hlost.filter _)
  rw [Balanced] at h ⊢
  omega

theorem balanced_nil (source : List Char) (x : Nat) : Balanced source x [] [] := rfl

/-- An edit that keeps its line feeds. -/
theorem balanced_of_eq {source text : List Char} {s : Span} (x : Nat)
    (h : lineFeeds text = lineFeeds (slice source s)) : Balanced source x [⟨s, text⟩] [] := by
  by_cases hx : s.stop ≤ x <;>
    simp [Balanced, editsBefore, spansBefore, feedsIn, feedsPut, hx, h]

/-- An edit that loses its line feeds. -/
theorem balanced_of_noFeed {source text : List Char} (x : Nat) (s : Span)
    (h : lineFeeds text = 0) : Balanced source x [⟨s, text⟩] [s] := by
  by_cases hx : s.stop ≤ x <;>
    simp [Balanced, editsBefore, spansBefore, feedsIn, feedsPut, hx, h]

theorem lineFeeds_feeds (source : List Char) (s : Span) :
    lineFeeds (feeds source s) = lineFeeds (slice source s) := by
  simp [feeds, lineFeeds]

/-- What stands in the place of a declaration has its line feeds, unless values are exported from
elsewhere. -/
theorem lineFeeds_replacement (source : List Char) (first : Nat) {n : Node}
    (hn : isReplaced n = true) :
    lineFeeds (replacement source first n) =
      if isReexport n then 0 else lineFeeds (slice source n.span) := by
  unfold replacement
  split
  · next marks text span names raw attributes =>
    have hraw : raw.isAbsent = false := by simpa [isReplaced] using hn
    have hvalues : isReexport (.mk .exportNames marks text span [names, raw, attributes]) =
        (!raw.isAbsent && !(marks.contains .typeOnly)) := rfl
    rw [hvalues, hraw]
    cases marks.contains .typeOnly with
    | true => exact lineFeeds_feeds _ _
    | false => exact lineFeeds_exportClause _ _
  · next marks text span raw exported attributes =>
    have hvalues : isReexport (.mk .exportAll marks text span [raw, exported, attributes]) =
        !(marks.contains .typeOnly) := rfl
    rw [hvalues]
    cases marks.contains .typeOnly with
    | true => exact lineFeeds_feeds _ _
    | false => exact lineFeeds_exportClause _ _
  · next hnames hall =>
    have hnot : isReexport n = false := by
      unfold isReexport
      split
      · exact (hnames _ _ _ _ _ _ rfl).elim
      · exact (hall _ _ _ _ _ _ rfl).elim
      · rfl
    rw [hnot]
    exact lineFeeds_feeds _ _

theorem isReplaced_of_isReexport {n : Node} (h : isReexport n = true) : isReplaced n = true := by
  unfold isReexport at h
  split at h
  · next raw _ =>
    simp only [Bool.and_eq_true] at h
    exact h.1
  · rfl
  · cases h

theorem balanced_declaration (source : List Char) (x first : Nat) (n : Node) :
    Balanced source x (declarationEdits source first n)
      (if isReexport n then [n.span] else []) := by
  unfold declarationEdits
  cases hr : isReplaced n with
  | false =>
    have hnot : isReexport n = false :=
      eq_false_of_ne_true fun h => Bool.false_ne_true (hr.symm.trans (isReplaced_of_isReexport h))
    simp [hnot, balanced_nil]
  | true =>
    have hfeeds := lineFeeds_replacement source first hr
    cases hre : isReexport n with
    | true =>
      rw [hre] at hfeeds
      exact balanced_of_noFeed x n.span hfeeds
    | false =>
      rw [hre] at hfeeds
      exact balanced_of_eq x hfeeds

theorem balanced_declarations {source : List Char} {location : String} {retained : Node → Bool}
    {p q : Plan} {ns : List Node} (x : Nat) {lost : List Span}
    (hp : Balanced source x p.edits lost)
    (h : declarations source location retained p ns = .ok q) :
    Balanced source x q.edits (lost ++ (ns.filter isReexport).map (·.span)) := by
  induction ns generalizing p lost with
  | nil =>
    cases h
    simpa using hp
  | cons n ns ih =>
    obtain ⟨r, hr, hrest⟩ := declarations_cons h
    have hstep : Balanced source x r.edits (lost ++ if isReexport n then [n.span] else []) := by
      rw [(declaration_edits hr).1]
      exact hp.append (balanced_declaration source x p.temporaries n)
    have hall := ih hstep hrest
    rw [List.append_assoc] at hall
    rw [List.filter_cons]
    cases hre : isReexport n <;> simpa [hre] using hall

theorem balanced_site (source : List Char) (location : String) (x : Nat) (s : Site) :
    Balanced source x (siteEdits location s) s.spans := by
  have hfront : lineFeeds (loadFunction ++ "(").toList = 0 := by decide
  have hback : lineFeeds (", " ++ Text.jsonQuoted location ++ ")").toList = 0 := by
    rw [lineFeeds_eq_zero]
    simp only [String.toList_append, List.mem_append, not_or]
    exact ⟨⟨by decide, noFeed_jsonQuoted location⟩, by decide⟩
  exact (balanced_of_noFeed x _ hfront).append (balanced_of_noFeed x _ hback)

theorem balanced_sites (source : List Char) (location : String) (x : Nat) (ss : List Site) :
    Balanced source x (ss.flatMap (siteEdits location)) (ss.flatMap Site.spans) := by
  induction ss with
  | nil => exact balanced_nil source x
  | cons s ss ih => exact (balanced_site source location x s).append ih

/-- The edits of a plan lose the line feeds of exports from elsewhere and of what stands around the
arguments of calls, and no others. -/
theorem balanced_plan {program : Program} {source : List Char} {location : String}
    {options : Options} {p : Plan} (x : Nat)
    (h : plan R dialect program source location options = .ok p) :
    Balanced source x p.edits (losing program.statements) := by
  obtain ⟨q, deps, hd, -, rfl⟩ := plan_ok h
  refine Balanced.perm ((balanced_declarations x (balanced_nil source x) hd).append
    (balanced_sites source location x (sortSites (sitesAll program.statements)))) (.refl _) ?_
  exact ((sortSites_perm _).flatMap_right _).append_left _

/-! ## Linking -/

/-- What linking replaces: declarations, and what stands around the arguments of calls. -/
def replaced (statements : List Node) : List Span :=
  (statements.filter isReplaced).map (·.span) ++ (sitesAll statements).flatMap Site.spans

theorem span_mem_replaced {program : Program} {source : List Char} {location : String}
    {options : Options} {p : Plan} (h : plan R dialect program source location options = .ok p)
    {e : Edit} (he : e ∈ sortEdits p.edits) : e.span ∈ replaced program.statements := by
  have hspan : e.span ∈ p.edits.map (·.span) :=
    List.mem_map_of_mem ((sortEdits_perm p.edits).mem_iff.1 he)
  rw [spans_plan h] at hspan
  exact (((sortSites_perm _).flatMap_right _).append_left _).mem_iff.1 hspan

theorem forward_of_spansNested {statements : List Node} {size : Nat}
    (hn : SpansNested statements size) : ∀ s ∈ replaced statements, s.start ≤ s.stop := by
  intro s hs
  rcases List.mem_append.1 hs with hs | hs
  · obtain ⟨n, hmem, rfl⟩ := List.mem_map.1 hs
    exact Nat.le_of_lt (hn.inBounds n (List.mem_filter.1 hmem).1).1
  · obtain ⟨t, ht, hs⟩ := List.mem_flatMap.1 hs
    exact Nat.le_of_lt (hn.within_of_mem_spans ht hs).1

/-- What linked text has in front of a character of the source that is not replaced. -/
def before (source : List Char) (p : Plan) (x : Nat) : List Char :=
  preface p.hoists ++ edited source 0 x (editsBefore x (sortEdits p.edits))

/-- Wherever linking returns, a character that is not replaced stands on the line it has in the
source, less the line feeds that are lost in front of it. -/
theorem place_of_ofSource {source location : String} {options : Options} {linked : Linked}
    {program : Program} {x : Nat} (hread : R.read dialect source.toList = .ok program)
    (hnames : ∀ n ∈ program.statements, ∀ i ∈ imports n, '\n' ∉ i.name.toList)
    (hforward : ∀ s ∈ replaced program.statements, s.start ≤ s.stop)
    (h : ofSource R source location dialect options = .ok linked)
    (hx : x < source.toList.length)
    (hout : ∀ s ∈ replaced program.statements, x < s.start ∨ s.stop ≤ x) :
    ∃ p after, plan R dialect program source.toList location options = .ok p ∧
      linked.code.toList = before source.toList p x ++ source.toList[x] :: after ∧
      lineFeeds (before source.toList p x) +
          feedsIn source.toList (spansBefore x (losing program.statements)) =
        lineFeeds (source.toList.take x) := by
  obtain ⟨program', p, rest, hread', hp, hsplice, hcode, -⟩ := parts_of_ofSource h
  cases hread.symm.trans hread'
  obtain ⟨⟨after, hafter⟩, hfeeds⟩ := place_of_spliceFrom hsplice (sorted_sortEdits p.edits)
    (fun e he => hforward _ (span_mem_replaced hp he)) (Nat.zero_le x) hx
    fun e he => hout _ (span_mem_replaced hp he)
  have hbalanced : Balanced source.toList x (sortEdits p.edits) (losing program.statements) :=
    (balanced_plan x hp).perm (sortEdits_perm p.edits).symm (.refl _)
  have hpreface : lineFeeds (preface p.hoists) = 0 := lineFeeds_preface (noFeed_holders hnames hp)
  have htake : Linked.slice source.toList ⟨0, x⟩ = source.toList.take x := rfl
  refine ⟨p, after, hp, ?_, ?_⟩
  · rw [hcode, hafter, before, List.append_assoc]
  · rw [Balanced] at hbalanced
    rw [htake] at hfeeds
    rw [before, lineFeeds_append, hpreface]
    omega

/-- An export from elsewhere on three lines. -/
def brokenList : String := "export \x7b\n  a,\n\x7d from './dep';\nthrow new Error('x');\n"

theorem brokenList_place : ∃ linked program p after,
    Reader.own.read (Dialect.ofLocation "/a.ts".toList) brokenList.toList = .ok program ∧
      ofSource .own brokenList "/a.ts" (Dialect.ofLocation "/a.ts".toList) {} = .ok linked ∧
      plan .own (Dialect.ofLocation "/a.ts".toList) program brokenList.toList "/a.ts" {} = .ok p ∧
      linked.code.toList = before brokenList.toList p 30 ++ 't' :: after ∧
      lineFeeds (before brokenList.toList p 30) = 1 ∧
      lineFeeds (brokenList.toList.take 30) = 3 := by
  obtain ⟨program, p, linked, hread, hnested, -, hp, hlinked, hcheck⟩ :=
    @links_of_check (Dialect.ofLocation "/a.ts".toList) brokenList "/a.ts" {}
      (fun program _ => decide
        ((∀ s ∈ replaced program.statements, 30 < s.start ∨ s.stop ≤ 30) ∧
          feedsIn brokenList.toList (spansBefore 30 (losing program.statements)) = 2))
      (by decide +kernel)
  obtain ⟨hout, hlost⟩ := of_decide_eq_true hcheck
  have hnames : ∀ n ∈ program.statements, ∀ i ∈ imports n, '\n' ∉ i.name.toList := by
    rw [Reader.own_read] at hread
    exact noFeed_imports hread
  obtain ⟨p', after, hp', hcode, hfeeds⟩ := place_of_ofSource hread hnames
    (forward_of_spansNested hnested) hlinked (by decide) hout
  have hlines : lineFeeds (brokenList.toList.take 30) = 3 := by decide
  refine ⟨linked, program, p', after, hread, hlinked, hp', hcode, ?_, hlines⟩
  rw [hlost, hlines] at hfeeds
  omega

end Linked

end ScriptLoader.Compile
