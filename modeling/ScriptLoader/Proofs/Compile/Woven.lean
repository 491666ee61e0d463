import Mathlib.Data.List.Perm.Basic
import ScriptLoader.Proofs.Compile.Calls

/-!
# What linking makes of each statement

Linked text is what stands in front, and behind it the statements of the source one by one, with
all that stands between them as it was. A statement that is replaced leaves its line feeds or a
list of exports; of any other one only the calls that load modules are changed.

* `edited`: a part of a text with edits applied. A splice that returns is the whole text edited
  (`edited_of_spliceFrom`), and parts can be edited apart from each other (`edited_append`).
* `Linked.image`, `Linked.woven`: what becomes of a statement, and of all of them.
* `Linked.code_of_ofSource`: linked text is that, wherever linking returns.
-/

namespace ScriptLoader.Compile

open Syntax

open scoped List

variable {R : Reader} {dialect : Dialect}

/-! ## Editing a part of a text -/

/-- The characters from `pos` up to `stop`, with edits applied in their order. -/
def edited (cs : List Char) : Nat → Nat → List Edit → List Char
  | pos, stop, [] => Linked.slice cs ⟨pos, stop⟩
  | pos, stop, e :: es =>
    Linked.slice cs ⟨pos, e.span.start⟩ ++ e.text ++ edited cs e.span.stop stop es

/-- Edits lie one behind the other from `pos` up to `stop`. -/
def Between : Nat → Nat → List Edit → Prop
  | pos, stop, [] => pos ≤ stop
  | pos, stop, e :: es =>
    pos ≤ e.span.start ∧ e.span.start < e.span.stop ∧ Between e.span.stop stop es

variable {cs : List Char} {es fs : List Edit} {pos mid stop : Nat}

theorem Between.append (h : Between pos mid es) (k : Between mid stop fs) :
    Between pos stop (es ++ fs) := by
  induction es generalizing pos with
  | nil =>
    have hle : pos ≤ mid := h
    cases fs with
    | nil => exact Nat.le_trans hle k
    | cons f fs => exact ⟨Nat.le_trans hle k.1, k.2⟩
  | cons e es ih => exact ⟨h.1, h.2.1, ih h.2.2⟩

theorem Between.sorted (h : Between pos stop es) :
    (∀ e ∈ es, pos ≤ e.span.start) ∧ es.Pairwise fun e f => e.span.start < f.span.start := by
  induction es generalizing pos with
  | nil => simp
  | cons e es ih =>
    obtain ⟨hpos, hlt, hrest⟩ := h
    obtain ⟨hbehind, hsorted⟩ := ih hrest
    refine ⟨List.forall_mem_cons.2 ⟨hpos, fun f hf => ?_⟩,
      List.pairwise_cons.2 ⟨fun f hf => ?_, hsorted⟩⟩
    · have := hbehind f hf
      omega
    · have := hbehind f hf
      omega

/-- Disjoint edits of a part lie one behind the other. -/
theorem between_of_disjoint (hd : Disjoint es) (hle : pos ≤ stop)
    (hes : ∀ e ∈ es, pos ≤ e.span.start ∧ e.span.start < e.span.stop ∧ e.span.stop ≤ stop) :
    Between pos stop es := by
  induction es generalizing pos with
  | nil => exact hle
  | cons e es ih =>
    obtain ⟨⟨hpos, hlt, hstop⟩, hrest⟩ := List.forall_mem_cons.1 hes
    refine ⟨hpos, hlt, ih hd.2.2 hstop fun f hf => ?_⟩
    exact ⟨hd.2.1 f hf, (hrest f hf).2⟩

theorem slice_append (h : pos ≤ mid) (k : mid ≤ stop) :
    Linked.slice cs ⟨pos, stop⟩ = Linked.slice cs ⟨pos, mid⟩ ++ Linked.slice cs ⟨mid, stop⟩ := by
  simp only [Linked.slice]
  have hsize : stop - pos = (mid - pos) + (stop - mid) := by omega
  have hdrop : cs.drop mid = (cs.drop pos).drop (mid - pos) := by
    rw [List.drop_drop]
    congr 1
    omega
  rw [hsize, List.take_add, hdrop]

/-- A part that is edited is its own parts edited. -/
theorem edited_append (h : Between pos mid es) (k : Between mid stop fs) :
    edited cs pos stop (es ++ fs) = edited cs pos mid es ++ edited cs mid stop fs := by
  induction es generalizing pos with
  | nil =>
    have hle : pos ≤ mid := h
    cases fs with
    | nil => exact slice_append hle k
    | cons f fs =>
      simp only [List.nil_append, edited]
      rw [slice_append hle k.1]
      simp only [List.append_assoc]
  | cons e es ih =>
    simp only [List.cons_append, edited, ih h.2.2, List.append_assoc]

theorem slice_of_sliceAt {s : Span} {kept : List Char} (h : sliceAt cs s = .ok kept) :
    s.start ≤ s.stop ∧ kept = Linked.slice cs s := by
  unfold sliceAt at h
  split at h
  · next hs =>
    cases h
    exact ⟨hs.1, rfl⟩
  · cases h

/-- A splice that returns begins with the text in front of the first edit, and that edit. -/
theorem spliceFrom_cons {e : Edit} {text : List Char} (h : spliceFrom cs pos (e :: es) = .ok text) :
    pos ≤ e.span.start ∧ ∃ rest, spliceFrom cs e.span.stop es = .ok rest ∧
      text = Linked.slice cs ⟨pos, e.span.start⟩ ++ e.text ++ rest := by
  unfold spliceFrom at h
  split at h
  · cases h
  · next kept hk =>
    obtain ⟨hle, hkept⟩ := slice_of_sliceAt hk
    cases hrest : spliceFrom cs e.span.stop es with
    | error gap =>
      rw [hrest] at h
      cases h
    | ok rest =>
      rw [hrest] at h
      cases h
      exact ⟨hle, rest, rfl, by rw [hkept]⟩

theorem edited_of_spliceFrom {text : List Char} (h : spliceFrom cs pos es = .ok text) :
    text = edited cs pos cs.length es := by
  induction es generalizing pos text with
  | nil => exact (slice_of_sliceAt h).2
  | cons e es ih =>
    obtain ⟨-, rest, hrest, rfl⟩ := spliceFrom_cons h
    rw [ih hrest]
    rfl

/-- Edits that lie one behind the other are in the order of their starts, whatever the order they
were recorded in. -/
theorem sortEdits_eq (h : Between pos stop es) (hperm : fs.Perm es) : sortEdits fs = es := by
  have hsorted := h.sorted.2
  refine List.Perm.eq_of_pairwise ?_ (sorted_sortEdits fs) (hsorted.imp Nat.le_of_lt)
    ((sortEdits_perm fs).trans hperm)
  intro e f he hf hef hfe
  by_contra hne
  have hsymm : Std.Symm fun e f : Edit => e.span.start ≠ f.span.start := ⟨fun _ _ h => h.symm⟩
  have hstarts : es.Pairwise fun e f => e.span.start ≠ f.span.start := hsorted.imp Nat.ne_of_lt
  have hmem : e ∈ es := ((sortEdits_perm fs).trans hperm).mem_iff.1 he
  exact hstarts.forall hmem hf hne (Nat.le_antisymm hef hfe)

namespace Linked

/-! ## What becomes of a statement -/

/-- What stands in the place of the two ends of a call. -/
def loaded (location : String) (s : Site) : List Edit :=
  [⟨⟨s.span.start, s.argument.start⟩, "__tsb_import_dynamic(".toList⟩,
    ⟨⟨s.argument.stop, s.span.stop⟩, ", ".toList ++ Text.jsonQuote location.toList ++ [')']⟩]

theorem siteEdits_eq (location : String) : siteEdits location = loaded location := by
  funext s
  simp [siteEdits, loaded, loadFunction, Text.jsonQuoted]

/-- The edits of the calls in a statement, in the order of their starts. -/
def callEdits (location : String) (n : Node) : List Edit :=
  sortEdits ((sites n).flatMap (loaded location))

theorem callEdits_eq (location : String) (n : Node) :
    callEdits location n = sortEdits ((sites n).flatMap (siteEdits location)) := by
  rw [siteEdits_eq, callEdits]

/-- What becomes of a statement. -/
def image (source : List Char) (location : String) (first : Nat) (n : Node) : List Char :=
  if isReplaced n then replacement source first n
  else edited source n.span.start n.span.stop (callEdits location n)

/-- What becomes of a source from a place on, from which its statements are known. -/
def woven (source : List Char) (location : String) : Nat → Nat → List Node → List Char
  | pos, _, [] => source.drop pos
  | pos, first, n :: ns =>
    slice source ⟨pos, n.span.start⟩ ++ image source location first n ++
      woven source location n.span.stop (first + temporariesOf n) ns

/-! ## Statement by statement -/

/-- The edits of a statement. -/
def statementEdits (source : List Char) (location : String) (first : Nat) (n : Node) : List Edit :=
  if isReplaced n then declarationEdits source first n else callEdits location n

/-- The edits of statements, one statement after the other. -/
def editsOf (source : List Char) (location : String) : Nat → List Node → List Edit
  | _, [] => []
  | first, n :: ns =>
    statementEdits source location first n ++ editsOf source location (first + temporariesOf n) ns

/-- Declarations are edited in their order, and their edits and those of the calls are those of the
statements. -/
theorem declarations_edits {source : List Char} {location : String} {retained : Node → Bool}
    {p q : Plan} {ns : List Node} (hplain : ∀ n ∈ ns, Plain n)
    (h : declarations source location retained p ns = .ok q) :
    (q.edits ++ (sitesAll ns).flatMap (siteEdits location)).Perm
      (p.edits ++ editsOf source location p.temporaries ns) := by
  induction ns generalizing p with
  | nil =>
    cases h
    simp [sitesAll, editsOf]
  | cons n ns ih =>
    obtain ⟨hn, hns⟩ := List.forall_mem_cons.1 hplain
    obtain ⟨r, hr, hrest⟩ := declarations_cons h
    obtain ⟨hedits, htemporaries⟩ := declaration_edits hr
    have hrest := ih hns hrest
    rw [hedits, htemporaries] at hrest
    have hcalls : (declarationEdits source p.temporaries n ++
        (sites n).flatMap (siteEdits location)).Perm
        (statementEdits source location p.temporaries n) := by
      unfold statementEdits declarationEdits
      split
      · next hreplaced =>
        rw [show sites n = [] from hn hreplaced]
        simp
      · rw [callEdits_eq]
        exact (sortEdits_perm _).symm
    rw [sitesAll, List.flatMap_append, editsOf]
    calc q.edits ++ ((sites n).flatMap (siteEdits location) ++
          (sitesAll ns).flatMap (siteEdits location))
      _ ~ (sites n).flatMap (siteEdits location) ++
          (q.edits ++ (sitesAll ns).flatMap (siteEdits location)) :=
        List.perm_append_comm_assoc _ _ _
      _ ~ (sites n).flatMap (siteEdits location) ++
          (p.edits ++ (declarationEdits source p.temporaries n ++
            editsOf source location (p.temporaries + temporariesOf n) ns)) := by
        rw [← List.append_assoc p.edits]
        exact hrest.append_left _
      _ ~ p.edits ++ (declarationEdits source p.temporaries n ++
          ((sites n).flatMap (siteEdits location) ++
            editsOf source location (p.temporaries + temporariesOf n) ns)) :=
        (List.perm_append_comm_assoc _ _ _).trans
          ((List.perm_append_comm_assoc _ _ _).append_left _)
      _ ~ p.edits ++ (statementEdits source location p.temporaries n ++
          editsOf source location (p.temporaries + temporariesOf n) ns) := by
        rw [← List.append_assoc (declarationEdits source p.temporaries n)]
        exact (hcalls.append_right _).append_left _

/-- What a plan records: the statements in front, and the edits of the statements in any order. -/
theorem edits_of_plan {program : Program} {source : List Char} {location : String}
    {options : Options} {p : Plan} (hplain : ∀ n ∈ program.statements, Plain n)
    (h : plan R dialect program source location options = .ok p) :
    p.edits ~ editsOf source location 0 program.statements := by
  obtain ⟨q, deps, hd, -, rfl⟩ := plan_ok h
  exact (((sortSites_perm _).flatMap_right _).append_left _).trans (declarations_edits hplain hd)

/-! ## One behind the other -/

section

variable {statements : List Node} {source : List Char} {location : String}

/-- What the edits of a statement replace is within it. -/
theorem between_statementEdits {size first : Nat} {n : Node}
    (h : SpansNested statements size) (hn : n ∈ statements)
    (hapart : (statementEdits source location first n).Pairwise Edit.Apart) :
    Between n.span.start n.span.stop (statementEdits source location first n) := by
  obtain ⟨hlt, -⟩ := h.inBounds n hn
  unfold statementEdits at hapart ⊢
  split
  · next hr =>
    rw [declarationEdits, if_pos hr]
    exact ⟨Nat.le_refl _, hlt, Nat.le_refl _⟩
  · next hr =>
    rw [if_neg hr, callEdits_eq] at hapart
    rw [callEdits_eq]
    have hwithin : ∀ e ∈ (sites n).flatMap (siteEdits location),
        n.span.start ≤ e.span.start ∧ e.span.start < e.span.stop ∧ e.span.stop ≤ n.span.stop := by
      intro e he
      obtain ⟨s, hs, he⟩ := List.mem_flatMap.1 he
      have hspan : e.span ∈ s.spans := by
        rw [← spans_siteEdits location]
        exact List.mem_map_of_mem he
      obtain ⟨hlt, hstart, hstop⟩ := h.within_of_mem_sites hn hs hspan
      exact ⟨hstart, hlt, hstop⟩
    refine between_of_disjoint ((disjoint_sortEdits_iff fun e he => (hwithin e he).2.1).2 ?_)
      (Nat.le_of_lt hlt) fun e he => hwithin e ((sortEdits_perm _).mem_iff.1 he)
    exact ((sortEdits_perm _).pairwise_iff Edit.Apart.symm).1 hapart

theorem edited_statementEdits (source : List Char) (location : String) (first : Nat) (n : Node) :
    edited source n.span.start n.span.stop (statementEdits source location first n) =
      image source location first n := by
  unfold statementEdits image declarationEdits
  split
  · simp [edited, slice]
  · rfl

/-- The edits of statements lie one behind the other, and what they make of the source is what
becomes of the statements. -/
theorem edited_editsOf {pos first : Nat} (h : SpansNested statements source.length)
    (hpos : pos ≤ source.length) (hbehind : ∀ n ∈ statements, pos ≤ n.span.start)
    (hapart : (editsOf source location first statements).Pairwise Edit.Apart) :
    Between pos source.length (editsOf source location first statements) ∧
      edited source pos source.length (editsOf source location first statements) =
        woven source location pos first statements := by
  induction statements generalizing pos first with
  | nil =>
    refine ⟨hpos, ?_⟩
    simp only [editsOf, edited, woven, slice]
    exact List.take_of_length_le (Nat.le_of_eq List.length_drop)
  | cons n ns ih =>
    obtain ⟨hn, hns⟩ := List.forall_mem_cons.1 h.inBounds
    obtain ⟨hfirst, hrest⟩ := List.pairwise_cons.1 h.inOrder
    have hnested : SpansNested ns source.length :=
      ⟨hns, hrest, fun m hm => h.within m (List.mem_cons_of_mem _ hm),
        fun m hm => h.nested m (List.mem_cons_of_mem _ hm)⟩
    rw [editsOf] at hapart ⊢
    obtain ⟨hone, hothers, -⟩ := List.pairwise_append.1 hapart
    have hstatement := between_statementEdits h List.mem_cons_self hone
    have hstart : Between pos n.span.start [] := hbehind n List.mem_cons_self
    obtain ⟨hbetween, hedited⟩ := ih hnested hn.2 hfirst hothers
    have hpart := hstart.append hstatement
    rw [List.nil_append] at hpart
    refine ⟨hpart.append hbetween, ?_⟩
    calc edited source pos source.length (statementEdits source location first n ++
            editsOf source location (first + temporariesOf n) ns)
        _ = edited source pos n.span.start [] ++
            edited source n.span.start n.span.stop (statementEdits source location first n) ++
            edited source n.span.stop source.length
              (editsOf source location (first + temporariesOf n) ns) := by
          rw [edited_append hpart hbetween, ← edited_append hstart hstatement, List.nil_append]
        _ = woven source location pos first (n :: ns) := by
          rw [hedited, edited_statementEdits]
          rfl

end

/-- Linked text is what stands in front, and behind it what becomes of the statements of the source,
with the text between them as it was. -/
theorem code_of_ofSource {source location : String} {options : Options} {program : Program}
    {linked : Linked} (hread : R.read dialect source.toList = .ok program)
    (hn : SpansNested program.statements source.toList.length)
    (hplain : ∀ n ∈ program.statements, Plain n)
    (h : ofSource R source location dialect options = .ok linked) :
    ∃ p, plan R dialect program source.toList location options = .ok p ∧ linked.report = p.report ∧
      linked.code.toList = preface p.hoists ++
        woven source.toList location 0 0 program.statements := by
  obtain ⟨program', p, text, hread', hp, hsplice, hcode, hreport⟩ := parts_of_ofSource h
  cases hread.symm.trans hread'
  have hperm := edits_of_plan hplain hp
  have happart : (editsOf source.toList location 0 program.statements).Pairwise Edit.Apart :=
    (hperm.pairwise_iff Edit.Apart.symm).1
      ((splice_ok_iff (fits_of_plan hn hp)).1 ⟨text, hsplice⟩)
  obtain ⟨hbetween, hedited⟩ :=
    edited_editsOf hn (Nat.zero_le _) (fun _ _ => Nat.zero_le _) happart
  have htext := edited_of_spliceFrom hsplice
  rw [sortEdits_eq hbetween hperm, hedited] at htext
  exact ⟨p, hp, hreport, by rw [hcode, htext]⟩

end Linked

end ScriptLoader.Compile
