import ScriptLoader.Proofs.Compile.Calls

/-!
# Trees laid out in a source

The calls in trees that were read one after the other stand in the source one after the other.

* `Linked.Laid`: calls in trees that are nested as the trees are, between two places, each literal
  argument being the string that stands in its place.
* `Linked.Formed`: a tree whose own span is around its calls.
* `Linked.SameCalls`: what matters of trees. Nodes other than calls and strings add nothing to their
  children (`Linked.sameCalls_node`), and a type keeps the calls inside of it
  (`Linked.sameCalls_ofTypes`).
-/

namespace ScriptLoader.Syntax

/-- A node of the kind is neither a call that loads a module nor a string. -/
abbrev Kind.Plain : Kind → Prop
  | .importCall | .stringLit => False
  | _ => True

theorem Kind.Plain.ne_importCall {kind : Kind} (h : kind.Plain) : kind ≠ .importCall := by
  rintro rfl
  exact h

theorem Kind.Plain.ne_stringLit {kind : Kind} (h : kind.Plain) : kind ≠ .stringLit := by
  rintro rfl
  exact h

end ScriptLoader.Syntax

namespace ScriptLoader.Compile.Linked

open Syntax

variable {source : List Char} {lo hi mid : Nat} {n : Node} {ns ms : List Node}

/-! ## Calls one after the other -/

/-- The string is what the source spells at the span. -/
def Spelled (source : List Char) (s : Span) (text : String) : Prop :=
  ∃ fuel, Token.scan fuel (source.drop s.start) = (.string text, source.drop s.stop)

/-- What the edits of a call replace is not within a span. -/
def Site.Spares (t : Site) (s : Span) : Prop := ∀ x ∈ t.spans, ¬ Within x s

theorem Site.spares_iff {t : Site} {s : Span} : t.Spares s ↔
    ¬ Within ⟨t.span.start, t.argument.start⟩ s ∧ ¬ Within ⟨t.argument.stop, t.span.stop⟩ s := by
  simp [Site.Spares, Site.spans]

/-- The calls in trees are nested as the trees are, and stand between two places. Where an argument
is a string, the source spells it there, and nothing is replaced inside of it. -/
structure Laid (source : List Char) (lo hi : Nat) (ns : List Node) : Prop where
  nested : callsNestedAll ns = true
  within : ∀ s ∈ sitesAll ns, Within s.span ⟨lo, hi⟩
  spelled : ∀ s ∈ sitesAll ns, ∀ text ∈ s.literal, Spelled source s.argument text
  bare : ∀ s ∈ sitesAll ns, s.literal.isSome → ∀ t ∈ sitesAll ns, t.Spares s.argument

theorem sitesAll_append : sitesAll (ns ++ ms) = sitesAll ns ++ sitesAll ms := by
  induction ns with
  | nil => rfl
  | cons n ns ih => simp only [List.cons_append, sitesAll, ih, List.append_assoc]

theorem sitesAll_singleton : sitesAll [n] = sites n := List.append_nil _

theorem callsNestedAll_append : callsNestedAll (ns ++ ms) =
    (callsNestedAll ns && callsNestedAll ms &&
      (sitesAll ns).all fun s => (sitesAll ms).all fun t => decide (Apart s.span t.span)) := by
  induction ns with
  | nil => simp [callsNestedAll, sitesAll]
  | cons n ns ih =>
    rw [Bool.eq_iff_iff] at ih ⊢
    simp only [List.cons_append, callsNestedAll, sitesAll, sitesAll_append, Bool.and_eq_true, ih,
      List.all_eq_true, List.mem_append, decide_eq_true_eq]
    grind

theorem callsNestedAll_singleton : callsNestedAll [n] = callsNested n := by
  simp [callsNestedAll, sitesAll]

theorem callsNestedAll_iff : callsNestedAll ns = true ↔
    (∀ n ∈ ns, callsNested n = true) ∧
      ns.Pairwise fun n m => ∀ s ∈ sites n, ∀ t ∈ sites m, Apart s.span t.span := by
  induction ns with
  | nil => simp [callsNestedAll]
  | cons n ns ih =>
    simp only [callsNestedAll, Bool.and_eq_true, ih, List.all_eq_true, decide_eq_true_eq,
      List.forall_mem_cons, List.pairwise_cons, mem_sitesAll]
    grind

namespace Laid

theorem nil : Laid source lo hi [] := ⟨rfl, nofun, nofun, nofun⟩

theorem sound (h : Laid source lo hi ns) : ∀ s ∈ sitesAll ns, s.Sound :=
  (spread_sitesAll (fun n _ => spread_sites n) h.nested).sound

theorem mono (h : Laid source lo hi ns) {lo' hi' : Nat} (hlo : lo' ≤ lo) (hhi : hi ≤ hi') :
    Laid source lo' hi' ns :=
  { h with
    within := fun s hs => ⟨Nat.le_trans hlo (h.within s hs).1, Nat.le_trans (h.within s hs).2 hhi⟩ }

/-- Trees with the calls of others. -/
theorem of_subset (h : Laid source lo hi ns) (hnested : callsNestedAll ms = true)
    (hsub : sitesAll ms ⊆ sitesAll ns) : Laid source lo hi ms where
  nested := hnested
  within s hs := h.within s (hsub hs)
  spelled s hs := h.spelled s (hsub hs)
  bare s hs hl t ht := h.bare s (hsub hs) hl t (hsub ht)

/-- Trees behind others. -/
theorem append {mid' : Nat} (h : Laid source lo mid ns) (k : Laid source mid' hi ms)
    (hlo : lo ≤ mid') (hmid : mid ≤ mid') (hhi : mid ≤ hi) : Laid source lo hi (ns ++ ms) := by
  have happart : ∀ s ∈ sitesAll ns, ∀ t ∈ sitesAll ms,
      s.Sound ∧ t.Sound ∧ lo ≤ s.span.start ∧ s.span.stop ≤ mid ∧ mid' ≤ t.span.start ∧
        t.span.stop ≤ hi := fun s hs t ht =>
    ⟨h.sound s hs, k.sound t ht, (h.within s hs).1, (h.within s hs).2, (k.within t ht).1,
      (k.within t ht).2⟩
  constructor
  · simp only [callsNestedAll_append, h.nested, k.nested, Bool.and_self, Bool.true_and,
      List.all_eq_true, decide_eq_true_eq]
    intro s hs t ht
    have := happart s hs t ht
    exact Or.inl (by omega)
  · intro s hs
    rw [sitesAll_append] at hs
    rcases List.mem_append.1 hs with hs | hs
    · have := h.within s hs
      exact ⟨this.1, Nat.le_trans this.2 hhi⟩
    · have := k.within s hs
      exact ⟨Nat.le_trans hlo this.1, this.2⟩
  · intro s hs
    rw [sitesAll_append] at hs
    exact (List.mem_append.1 hs).elim (h.spelled s) (k.spelled s)
  · intro s hs hl t ht
    rw [sitesAll_append] at hs ht
    rcases List.mem_append.1 hs with hs | hs <;> rcases List.mem_append.1 ht with ht | ht
    · exact h.bare s hs hl t ht
    · have := happart s hs t ht
      simp only [Site.spares_iff, Site.Sound, Within] at this ⊢
      omega
    · have := happart t ht s hs
      simp only [Site.spares_iff, Site.Sound, Within] at this ⊢
      omega
    · exact k.bare s hs hl t ht

theorem of_perm (h : Laid source lo hi ns) (hperm : ms.Perm ns) : Laid source lo hi ms := by
  obtain ⟨hns, hapart⟩ := callsNestedAll_iff.1 h.nested
  refine h.of_subset (callsNestedAll_iff.2 ⟨fun n hn => hns n (hperm.mem_iff.1 hn), ?_⟩) ?_
  · refine (hperm.pairwise_iff ?_).2 hapart
    exact fun h s hs t ht => (h t ht s hs).symm
  · intro s hs
    obtain ⟨n, hn, hs⟩ := mem_sitesAll.1 hs
    exact mem_sitesAll.2 ⟨n, hperm.mem_iff.1 hn, hs⟩

theorem of_sublist (h : Laid source lo hi ns) (hsub : ms.Sublist ns) : Laid source lo hi ms := by
  obtain ⟨hns, hapart⟩ := callsNestedAll_iff.1 h.nested
  refine h.of_subset
    (callsNestedAll_iff.2 ⟨fun n hn => hns n (hsub.subset hn), hapart.sublist hsub⟩) fun s hs => ?_
  obtain ⟨n, hn, hs⟩ := mem_sitesAll.1 hs
  exact mem_sitesAll.2 ⟨n, hsub.subset hn, hs⟩

end Laid

/-! ## What matters of trees -/

/-- Trees with the same calls, nested in the same way. -/
def SameCalls (ns ms : List Node) : Prop :=
  sitesAll ns = sitesAll ms ∧ callsNestedAll ns = callsNestedAll ms

namespace SameCalls

theorem refl (ns : List Node) : SameCalls ns ns := ⟨rfl, rfl⟩

theorem symm (h : SameCalls ns ms) : SameCalls ms ns := ⟨h.1.symm, h.2.symm⟩

theorem trans {ks : List Node} (h : SameCalls ns ms) (k : SameCalls ms ks) : SameCalls ns ks :=
  ⟨h.1.trans k.1, h.2.trans k.2⟩

theorem append {ks ls : List Node} (h : SameCalls ns ms) (k : SameCalls ks ls) :
    SameCalls (ns ++ ks) (ms ++ ls) := by
  simp only [SameCalls, sitesAll_append, callsNestedAll_append, h.1, h.2, k.1, k.2, and_self]

theorem cons {m : Node} (h : SameCalls [n] [m]) (k : SameCalls ns ms) :
    SameCalls (n :: ns) (m :: ms) := h.append k

theorem laid (h : SameCalls ns ms) (k : Laid source lo hi ms) : Laid source lo hi ns :=
  k.of_subset (h.2.trans k.nested) (by rw [h.1]; exact List.Subset.refl _)

end SameCalls

/-- A node that is no call has the calls of its children. -/
theorem sameCalls_node {kind : Kind} {marks : List Mark} {text : String} {span : Span}
    (h : kind ≠ .importCall) : SameCalls [.mk kind marks text span ns] ns := by
  have hno : ∀ argument options, kind = .importCall → ns ≠ argument :: options :=
    fun _ _ hk => absurd hk h
  simp only [SameCalls, sitesAll_singleton, callsNestedAll_singleton]
  rw [sites, callsNested]
  · exact ⟨rfl, rfl⟩
  · exact hno
  · exact hno

theorem sameCalls_leaf {kind : Kind} {marks : List Mark} {text : String} {span : Span} :
    SameCalls [.mk kind marks text span []] [] := by
  simp only [SameCalls, sitesAll_singleton, callsNestedAll_singleton]
  rw [sites, callsNested]
  · exact ⟨rfl, rfl⟩
  · intro _ _ _ hnone
    cases hnone
  · intro _ _ _ hnone
    cases hnone

theorem sameCalls_absent (ns : List Node) : SameCalls (.absent :: ns) ns :=
  SameCalls.append sameCalls_leaf (.refl ns)

/-- Nodes of which only the kind, the marks, the text and the span differ. -/
theorem sameCalls_nodes {kind kind' : Kind} {marks marks' : List Mark} {text text' : String}
    {span span' : Span} (h : kind ≠ .importCall) (h' : kind' ≠ .importCall)
    (hns : SameCalls ns ms) :
    SameCalls [.mk kind marks text span ns] [.mk kind' marks' text' span' ms] :=
  ((sameCalls_node h).trans hns).trans (sameCalls_node h').symm

theorem sameCalls_withMark (mark : Mark) (n : Node) : SameCalls [n.withMark mark] [n] := by
  obtain ⟨kind, marks, text, span, cs⟩ := n
  by_cases hcall : ∃ argument options, kind = .importCall ∧ cs = argument :: options
  · obtain ⟨argument, options, rfl, rfl⟩ := hcall
    simp [SameCalls, sitesAll, callsNestedAll, Node.withMark, sites, callsNested]
  · have hno : ∀ argument options, kind = .importCall → cs ≠ argument :: options :=
      fun argument options hk hc => hcall ⟨argument, options, hk, hc⟩
    simp only [SameCalls, sitesAll_singleton, callsNestedAll_singleton, Node.withMark]
    rw [sites, callsNested, sites, callsNested]
    · exact ⟨rfl, rfl⟩
    all_goals exact hno

theorem sameCalls_withSpan (h : n.kind ≠ .importCall) (span : Span) :
    SameCalls [n.withSpan span] [n] := by
  obtain ⟨kind, marks, text, _, cs⟩ := n
  exact sameCalls_nodes h h (.refl cs)

/-! ## Types -/

/-- Parts of types without an expression inside of them have no calls. -/
theorem sameCalls_filter_bare (ns : List Node) :
    SameCalls (ns.filter fun n => !n.isBareType) ns := by
  induction ns with
  | nil => exact .refl []
  | cons n ns ih =>
    rw [List.filter_cons]
    split
    · exact .cons (.refl [n]) ih
    · next hbare =>
      obtain ⟨kind, marks, text, span, cs⟩ := n
      have hleaf : cs = [] := by simp_all [Node.isBareType, Node.children]
      subst hleaf
      exact ih.trans (SameCalls.append sameCalls_leaf.symm (.refl ns))

/-- What is left of a type has all calls of its parts. -/
theorem sameCalls_ofTypes (parts : List Node) : SameCalls [.ofTypes parts] parts :=
  (sameCalls_node (by decide)).trans (sameCalls_filter_bare parts)

theorem sameCalls_withType (ns : List Node) (type : Node) :
    SameCalls (Node.withType ns type) (ns ++ [type]) :=
  .append (.refl ns) (sameCalls_filter_bare [type])

/-- Parameters with what the other types of their signature left. -/
theorem laid_withSignature {types more : List Node} (h : Laid source lo hi (n :: types ++ more)) :
    Laid source lo hi (n.withSignature types :: more) := by
  obtain ⟨kind, marks, text, span, ps⟩ := n
  cases kind with
  | params =>
    have hopen : Laid source lo hi (ps ++ types ++ more) := by
      rw [List.append_assoc]
      exact ((sameCalls_node (by decide)).symm.append (.refl (types ++ more))).laid h
    have hparts : SameCalls (ps ++ types.filter fun n => !n.isBareType) (ps ++ types) :=
      .append (.refl ps) (sameCalls_filter_bare types)
    exact (((sameCalls_node (by decide)).trans hparts).append (.refl more)).laid hopen
  | _ => exact h.of_sublist (.cons_cons _ (List.sublist_append_right types more))

/-! ## Calls -/

/-- Trees without calls are nested if each of them is. -/
theorem callsNestedAll_of_callFree (hnested : ∀ n ∈ ns, callsNested n = true)
    (hfree : ∀ n ∈ ns, CallFree n) : callsNestedAll ns = true := by
  refine callsNestedAll_iff.2 ⟨hnested, List.pairwise_iff_forall_sublist.2 fun {a b} hab s hs => ?_⟩
  have : sites a = [] := hfree a (hab.subset List.mem_cons_self)
  rw [this] at hs
  cases hs

theorem callsNested_of_callFree (n : Node) (h : CallFree n) : callsNested n = true := by
  match n with
  | .mk kind marks text span cs =>
    have hcs : ∀ c ∈ cs, CallFree c → callsNested c = true := fun c _ hc =>
      callsNested_of_callFree c hc
    rcases call_or_children (.mk kind marks text span cs) with
      ⟨_, _, _, argument, options, heq⟩ | ⟨hsites, hnested, -⟩
    · cases heq
      simp [CallFree, sites] at h
    · have hfree : ∀ c ∈ cs, CallFree c := sitesAll_eq_nil_iff.1 (hsites.symm.trans h)
      rw [hnested]
      exact callsNestedAll_of_callFree (fun c hc => hcs c hc (hfree c hc)) hfree

/-- Trees without calls add nothing. -/
theorem sameCalls_of_callFree (h : ∀ n ∈ ns, CallFree n) : SameCalls ns [] :=
  ⟨sitesAll_eq_nil_iff.2 h,
    callsNestedAll_of_callFree (fun n hn => callsNested_of_callFree n (h n hn)) h⟩

theorem CallFree.children (h : CallFree n) : ∀ c ∈ n.children, CallFree c := by
  rcases call_or_children n with ⟨_, _, _, _, _, rfl⟩ | ⟨hsites, -⟩
  · simp [CallFree, sites] at h
  · exact sitesAll_eq_nil_iff.1 (hsites.symm.trans h)

/-- The tree has characters between two places, its calls stand there, and if it is a string, it
is the one that they spell. -/
structure Formed (source : List Char) (lo hi : Nat) (n : Node) : Prop where
  starts : lo ≤ n.span.start
  solid : n.span.start < n.span.stop
  stops : n.span.stop ≤ hi
  laid : Laid source n.span.start n.span.stop [n]
  literal : n.kind = .stringLit → n.children = [] ∧ Spelled source n.span n.text

namespace Formed

theorem mono (h : Formed source lo hi n) {lo' hi' : Nat} (hlo : lo' ≤ lo) (hhi : hi ≤ hi') :
    Formed source lo' hi' n :=
  { h with starts := Nat.le_trans hlo h.starts, stops := Nat.le_trans h.stops hhi }

theorem between (h : Formed source lo hi n) : Laid source lo hi [n] := h.laid.mono h.starts h.stops

theorem nonempty (h : Formed source lo hi n) : lo < hi :=
  Nat.lt_of_le_of_lt h.starts (Nat.lt_of_lt_of_le h.solid h.stops)

/-- Another node with the same span and the same calls. -/
theorem remade (h : Formed source lo hi n) {m : Node} (hspan : m.span = n.span)
    (hkind : m.kind ≠ .stringLit) (hcalls : SameCalls [m] [n]) : Formed source lo hi m where
  starts := hspan ▸ h.starts
  solid := hspan ▸ h.solid
  stops := hspan ▸ h.stops
  laid := hspan ▸ hcalls.laid h.laid
  literal h := absurd h hkind

/-- A node whose span is around what it was made of. -/
theorem node {kind : Kind} {marks : List Mark} {text : String} {span : Span} (hkind : kind.Plain)
    (hlo : lo ≤ span.start) (hlt : span.start < span.stop) (hhi : span.stop ≤ hi)
    (hns : Laid source span.start span.stop ns) :
    Formed source lo hi (.mk kind marks text span ns) where
  starts := hlo
  solid := hlt
  stops := hhi
  laid := (sameCalls_node hkind.ne_importCall).laid hns
  literal h := absurd h hkind.ne_stringLit

theorem withMark (h : Formed source lo hi n) (hplain : n.kind.Plain) (mark : Mark) :
    Formed source lo hi (n.withMark mark) ∧ (n.withMark mark).kind.Plain := by
  have hcalls := sameCalls_withMark mark n
  obtain ⟨kind, marks, text, span, cs⟩ := n
  exact ⟨h.remade rfl hplain.ne_stringLit hcalls, hplain⟩

/-- A node whose span is made wider. -/
theorem withSpan (h : Formed source lo hi n) (hplain : n.kind.Plain) {span : Span}
    (hlo : lo ≤ span.start) (hstart : span.start ≤ n.span.start)
    (hstop : n.span.stop ≤ span.stop) (hhi : span.stop ≤ hi) :
    Formed source lo hi (n.withSpan span) ∧ (n.withSpan span).kind.Plain := by
  have hsolid := h.solid
  have hlaid := (sameCalls_withSpan hplain.ne_importCall span).laid h.laid
  obtain ⟨kind, marks, text, _, cs⟩ := n
  refine ⟨.node hplain hlo (by omega) hhi ?_, hplain⟩
  exact (sameCalls_node hplain.ne_importCall).symm.laid (hlaid.mono hstart hstop)

end Formed

/-- A call whose argument has characters of the call on both sides, and whose options stand behind
the argument. -/
theorem laid_call {marks : List Mark} {text : String} {span : Span} {argument : Node}
    (h : Formed source (span.start + 1) mid argument) (hmid : mid < span.stop)
    (hoptions : Laid source mid span.stop ns) :
    Laid source span.start span.stop [.mk .importCall marks text span (argument :: ns)] := by
  have ⟨hstart, hsolid, hstop, ha, hliteral⟩ := h
  -- The calls of the argument and of the options, among themselves.
  have hinner : Laid source (span.start + 1) span.stop (argument :: ns) :=
    h.between.append hoptions (by omega) (Nat.le_refl _) (Nat.le_of_lt hmid)
  have hcalls : sitesAll [.mk .importCall marks text span (argument :: ns)] =
      ⟨span, argument.span, if argument.is .stringLit then some argument.text else none⟩ ::
        sitesAll (argument :: ns) := by
    rw [sitesAll_singleton, sites, sitesAll]
  have hsound : Site.Sound ⟨span, argument.span, none⟩ := by
    simp only [Site.Sound]
    omega
  have hwithin : ∀ s ∈ sites argument, Within s.span argument.span := fun s hs =>
    ha.within s (sitesAll_singleton ▸ hs)
  have hbehind : ∀ s ∈ sitesAll ns, Within s.span ⟨argument.span.stop, span.stop⟩ := fun s hs =>
    (hoptions.mono hstop (Nat.le_refl _)).within s hs
  have hstring : argument.is .stringLit = true → sites argument = [] ∧
      Spelled source argument.span argument.text := by
    intro hk
    obtain ⟨hleaf, hspelled⟩ := hliteral (of_decide_eq_true hk)
    refine ⟨?_, hspelled⟩
    obtain ⟨kind, _, _, _, cs⟩ := argument
    cases hleaf
    exact callFree_leaf
  constructor
  · have hnested := callsNestedAll_singleton ▸ ha.nested
    rw [callsNestedAll_singleton, callsNested]
    simp only [hsound, hnested, hoptions.nested, decide_true, Bool.true_and, Bool.and_true,
      Bool.and_eq_true, List.all_eq_true, decide_eq_true_eq]
    exact ⟨hwithin, hbehind⟩
  · rw [hcalls, List.forall_mem_cons]
    exact ⟨⟨Nat.le_refl _, Nat.le_refl _⟩,
      (hinner.mono (Nat.le_succ _) (Nat.le_refl _)).within⟩
  · rw [hcalls, List.forall_mem_cons]
    refine ⟨fun text htext => ?_, hinner.spelled⟩
    split at htext
    · next hk =>
      cases htext
      exact (hstring hk).2
    · cases htext
  · rw [hcalls]
    simp only [List.forall_mem_cons]
    refine ⟨fun hl => ?_, fun s hs hl => ⟨?_, hinner.bare s hs hl⟩⟩
    · have hk : argument.is .stringLit = true := by
        by_contra hk
        rw [if_neg hk] at hl
        cases hl
      rw [sitesAll, (hstring hk).1, List.nil_append]
      refine ⟨?_, fun t ht => ?_⟩
      · simp only [Site.spares_iff, Within]
        omega
      · have hsound := hoptions.sound t ht
        have := hbehind t ht
        simp only [Site.spares_iff, Site.Sound, Within] at hsound this ⊢
        omega
    · have hsound := hinner.sound s hs
      have := hinner.within s hs
      simp only [Site.spares_iff, Site.Sound, Within] at hsound this ⊢
      omega

theorem formed_call {marks : List Mark} {text : String} {argument : Node}
    (h : Formed source (lo + 1) mid argument) (hmid : mid < hi)
    (hoptions : Laid source mid hi ns) :
    Formed source lo hi (.mk .importCall marks text ⟨lo, hi⟩ (argument :: ns)) where
  starts := Nat.le_refl _
  solid := by
    have := h.starts
    have := h.solid
    have := h.stops
    simp only [Node.span]
    omega
  stops := Nat.le_refl _
  laid := laid_call h hmid hoptions
  literal := nofun

/-! ## Targets of assignments -/

open Grammar in
/-- An expression and the target that it becomes. -/
theorem sameCalls_targets :
    (∀ n m, toTarget? n = some m → SameCalls [m] [n]) ∧
    (∀ ns ms, fieldTargets? ns = some ms → SameCalls ms ns) ∧
    (∀ n m, Grammar.withDefault? n = some m → SameCalls [m] [n]) ∧
    (∀ ns ms, itemTargets? ns = some ms → SameCalls ms ns) := by
  apply toTarget?.mutual_induct (fun n => ∀ m, toTarget? n = some m → SameCalls [m] [n])
    (fun ns => ∀ ms, fieldTargets? ns = some ms → SameCalls ms ns)
    (fun n => ∀ m, Grammar.withDefault? n = some m → SameCalls [m] [n])
    (fun ns => ∀ ms, itemTargets? ns = some ms → SameCalls ms ns)
  case case1 =>
    intro marks text span cs ih m h
    simp only [toTarget?, Option.map_eq_some_iff] at h
    obtain ⟨ds, hds, rfl⟩ := h
    exact sameCalls_nodes (by decide) (by decide) (ih ds hds)
  case case2 =>
    intro marks text span cs ih m h
    simp only [toTarget?, Option.map_eq_some_iff] at h
    obtain ⟨ds, hds, rfl⟩ := h
    exact sameCalls_nodes (by decide) (by decide) (ih ds hds)
  case case8 =>
    intro marks text span key value cs v vs hcs hv ihv ihcs ms h
    simp only [fieldTargets?, hcs, hv] at h
    cases h
    exact .cons (sameCalls_nodes (by decide) (by decide)
      (.cons (.refl _) (ihv v hv))) (ihcs vs hcs)
  case case15 =>
    intro marks text span e t ht ih ms h
    simp only [itemTargets?, ht] at h
    cases h
    exact sameCalls_nodes (by decide) (by decide) (ih t ht)
  case case17 =>
    intro marks text span c cs ih ms h
    simp only [itemTargets?, Option.map_eq_some_iff] at h
    obtain ⟨ds, hds, rfl⟩ := h
    exact .cons (.refl _) (ih ds hds)
  case case18 =>
    intro c cs hspread helision t ts hcs hc ihc ihcs ms h
    rw [itemTargets?, hcs, hc] at h
    · cases h
      exact .cons (ihc t hc) (ihcs ts hcs)
    · exact hspread
    · exact helision
  case case13 =>
    intro n hassign hdefault ih m h
    rw [Grammar.withDefault?] at h
    · exact ih m h
    · exact hassign
    · exact hdefault
  -- Elsewhere the children stay as they are, or there is no target.
  case case11 | case12 =>
    intros
    rename_i h
    rw [Grammar.withDefault?] at h
    cases h
    exact sameCalls_nodes (by decide) (by decide) (.refl _)
  case case3 =>
    intro n harray hobject hsimple m h
    rw [toTarget?, if_pos hsimple] at h
    · cases h
      exact .refl _
    · exact harray
    · exact hobject
  case case6 =>
    intro marks text span e hsimple ms h
    rw [fieldTargets?, if_pos hsimple] at h
    cases h
    exact sameCalls_nodes (by decide) (by decide) (.refl _)
  case case5 | case14 =>
    intro ms h
    simp only [fieldTargets?, itemTargets?, Option.some.injEq] at h
    exact h ▸ .refl _
  case case4 | case7 | case9 | case10 | case16 | case19 =>
    intros
    rename_i h
    simp_all [toTarget?, fieldTargets?, itemTargets?]

end ScriptLoader.Compile.Linked
