import ScriptLoader.Proofs.Places.Patterns

/-!
# Expressions in a source

An expression is a tree from its first token to its last one, with a span around all calls in it; a
call surrounds its argument, and its options stand behind that.

* `Grammar.runs_importRest`: calls that load modules.
* `Grammar.Waiting`: operands that wait for the end of their operators' right sides stand one behind
  the other.
* The rules for expressions over a grammar whose trees stand where they were read.
-/

namespace ScriptLoader.Syntax.Grammar

open Syntax.Parser Compile.Linked

set_option synthInstance.maxSize 1000000

variable {source : List Char} (g : Grammar) [hg : Placed source g]

instance : Spans source (innerExpression g) := by
  unfold innerExpression
  infer_instance

instance : Lays source [] (spreadItem g) := by
  unfold spreadItem
  infer_instance

instance : Lays source [] (argumentsRest g) := by
  unfold argumentsRest
  infer_instance

/-! ## Literals -/

section

variable (start : Nat)

instance : Lays source [] (arrayRest g start) := by
  unfold arrayRest
  infer_instance

instance : Ends start (arrayRest g start) := by
  unfold arrayRest
  infer_instance

instance : Lays source [] (objectItem g) := by
  unfold objectItem
  dsimp only
  infer_instance

instance : Lays source [] (objectRest g start) := by
  unfold objectRest
  infer_instance

instance : Ends start (objectRest g start) := by
  unfold objectRest
  infer_instance

instance : Lays source [] (newRest g start) := by
  unfold newRest
  dsimp only
  infer_instance

instance : Ends start (newRest g start) := by
  unfold newRest
  dsimp only
  infer_instance

end

instance : Moves source typeArgumentsEnd := by
  unfold typeArgumentsEnd
  refine .seq fun c => ?_
  split <;> infer_instance

instance : Lays source [] (instantiation g) := by
  unfold instantiation
  dsimp only
  infer_instance

instance : Lays source [] (assertedType g) := by
  unfold assertedType
  infer_instance

/-! ## Arrow functions -/

instance : Still arrowLikely := inferInstanceAs (Still (ahead _))

instance : Lays source [] (arrowResult g) := by
  unfold arrowResult
  infer_instance

instance (start : Nat) (async : Bool) (ps : Node) :
    Hands source (arrowBody g start async ps) [ps] := by
  have hlays : Lays source ([] ++ nodes ps) (arrowBody g start async ps) := by
    unfold arrowBody
    dsimp only
    infer_instance
  exact ⟨hlays⟩

instance (start : Nat) (async : Bool) (ps : Node) : Ends start (arrowBody g start async ps) := by
  unfold arrowBody
  dsimp only
  infer_instance

instance (start : Nat) (async : Bool) (ps : Node) : Strict source (arrowBody g start async ps) := by
  unfold arrowBody
  dsimp only
  infer_instance

instance (start : Nat) (async : Bool) : Lays source [] (bareArrow g start async) := by
  unfold bareArrow
  dsimp only
  infer_instance

instance (start : Nat) (async : Bool) : Ends start (bareArrow g start async) := by
  unfold bareArrow
  infer_instance

instance (start : Nat) (async : Bool) : Strict source (bareArrow g start async) := by
  unfold bareArrow
  infer_instance

instance (start : Nat) : Lays source [] (yieldRest g start) := by
  unfold yieldRest
  dsimp only
  infer_instance

instance (start : Nat) : Ends start (yieldRest g start) := by
  unfold yieldRest
  dsimp only
  infer_instance

instance (start : Nat) : Strict source (yieldRest g start) := by
  unfold yieldRest
  dsimp only
  infer_instance


/-- A call, or a property of the module, after its word. -/
theorem runs_importRest {start : Nat} {c : Cursor} (hlt : start < c.lastStop) :
    Runs source (importRest g start) c fun n d => Formed source start d.lastStop n := by
  unfold importRest
  refine .seq fun dotted d hle _ _ => ?_
  extract_lets afterPhase
  have hafterPhase : ∀ phase e, d.lastStop ≤ e.lastStop → e.lastStop ≤ e.span.start →
      Runs source (afterPhase phase) e fun n d => Formed source start d.lastStop n := by
    intro phase e hle' hbehind
    unfold afterPhase
    split
    · exact (Runs.ended (by omega) (by omega) .nil).mono fun n _ h _ _ _ => (h n rfl).1
    · refine (Runs.expect _).bind fun _ f hopen _ _ _ => .within _ <| .still fun spread => ?_
      dsimp only
      split
      · exact .refuse
      · refine (Spans.runs f).bind fun argument a hargument hle₁ _ hbehind₁ => ?_
        have hcall : ∀ b options, Laid source a.lastStop b.lastStop [options] →
            a.lastStop ≤ b.lastStop → b.lastStop ≤ b.span.start → Runs source (do
              expect ")"
              Parser.finish start .importCall [argument, options] phase) b fun n d =>
                Formed source start d.lastStop n := by
          intro b options hoptions hb hb'
          refine (Runs.expect _).bind fun _ k hclose _ _ _ => ?_
          rintro s _ _ hs hk ⟨⟩
          refine ⟨hk, Nat.le_refl _, Nat.le_refl _, ?_⟩
          refine formed_call (hargument.mono (by omega) (Nat.le_refl a.lastStop)) ?_ ?_
          · omega
          · exact hoptions.mono (Nat.le_refl _) (by omega)
        refine .seq fun more b hb _ hb' => ?_
        split
        · refine .still fun closed => ?_
          split
          · exact .handed <| hcall b .absent (sameCalls_leaf.laid .nil) hb hb'
          · refine (Spans.runs b).bind fun e e' he _ _ _ => .seq fun _ e'' _ _ _ => .handed ?_
            refine hcall e'' e (he.between.mono (by omega) (by omega)) (by omega) (by omega)
        · exact .handed <| hcall b .absent (sameCalls_leaf.laid .nil) hb hb'
  clear_value afterPhase
  split
  · refine .seq fun w e _ _ _ => .seq fun _ f _ _ _ => ?_
    split
    · exact hafterPhase _ _ (by omega) (by omega)
    · exact .refuse
  · exact hafterPhase _ _ (Nat.le_refl _) (by omega)



instance : Spans source (primary g) := by
  refine ⟨fun c => .position <| .cursor ?_⟩
  split
  · next w escaped htoken =>
    have hknown : c.Known := by simp [Cursor.Known, htoken]
    refine .ite (Spans.runs c) ?_
    refine .ite (formed_leaf hknown (by simp)) ?_
    refine .ite (Runs.bind (formed_leaf hknown (by simp)) fun e d he _ _ _ =>
      .still fun p => .ite (.pure he) .refuse) ?_
    refine .ite (formed_leaf hknown (by simp)) ?_
    refine .ite (formed_leaf hknown (by simp)) ?_
    refine .ite .own ?_
    refine .ite .own ?_
    refine .ite (.behind hknown fun d hlt hbehind => .since hlt hbehind) ?_
    refine .ite (.behind hknown fun d hlt _ => runs_importRest g hlt) ?_
    refine .ite (.still fun n => .ite .own (Spans.runs c)) (Spans.runs c)
  · next htoken => exact formed_leaf (by simp [Cursor.Known, htoken]) (by simp)
  · next htoken => exact formed_leaf (by simp [Cursor.Known, htoken]) (by simp)
  · next htoken => exact formed_leaf (by simp [Cursor.Known, htoken]) fun _ => htoken
  · exact Spans.runs c
  · exact .own
  · next htoken =>
    exact .behind (by simp [Cursor.Known, htoken]) fun d hlt hbehind => .since hlt hbehind
  · next htoken =>
    exact .behind (by simp [Cursor.Known, htoken]) fun d hlt hbehind => .since hlt hbehind
  · exact .own
  · exact .still fun s => .ite (Spans.runs c) .refuse
  · refine .ite (.still fun s => ?_) .refuse
    split
    · next text rest hregex =>
      refine (Runs.retoken (shrinks_scanRegex? hregex) fun _ => Token.noConfusion).bind
        fun _ d ⟨_, hstart, _, hsolid⟩ _ _ _ => ?_
      rw [← hstart]
      exact (leaf_of_solid hsolid (by simp)).mono fun _ _ h _ _ _ => h.1
    · exact .refuse
  · exact .refuse


theorem runs_suffixStep {calls chained : Bool} {start : Nat} {e : Node} {c : Cursor}
    (hstart : start ≤ c.span.start) (he : Formed source start c.lastStop e) :
    Runs source (suffixStep g calls start (e, chained)) c fun next d =>
      Formed source start d.lastStop (next.elim Prod.fst Prod.fst) := by
  unfold suffixStep
  dsimp -zeta only
  refine .cursor <| .still fun s => ?_
  extract_lets typed memberName tagged
  have hmember : Lays source [] memberName := by
    unfold memberName
    refine .seq fun c => ?_
    split <;> infer_instance
  clear_value memberName
  have hlink : ∀ p : Parser (Node × Bool ⊕ Node × Bool), Lays source ([] ++ nodes e) p →
      Ends start p → ∀ d, start ≤ d.span.start → Formed source start d.lastStop e →
        Runs source p d fun state f =>
          Formed source start f.lastStop (state.elim Prod.fst Prod.fst) := by
    intro p hl hp d hstart he
    refine (Runs.around hstart he).mono fun state d h _ _ _ => ?_
    cases state <;> exact h _ rfl
  split
  · refine .ite .refuse (hlink (tagged ()) ?_ ?_ c hstart he) <;>
    · unfold tagged
      infer_instance
  · exact hlink _ inferInstance inferInstance c hstart he
  · exact .ite (.pure he) (hlink _ inferInstance inferInstance c hstart he)
  · exact hlink _ inferInstance inferInstance c hstart he
  · exact .ite (hlink _ inferInstance inferInstance c hstart he) (.pure he)
  · exact .ite (hlink _ inferInstance inferInstance c hstart he) (.pure he)
  · -- The arguments of types stand behind the expression, and are left with it.
    refine .ite ((Runs.beside (p := attempt (instantiation g)) hstart he.between).bind
      fun found d hfound hle hst _ => ?_) (.pure he)
    have he' := he.mono (Nat.le_refl _) hle
    cases found with
    | none => exact .pure he'
    | some t =>
      have hbefore : Laid source start d.lastStop ([] ++ nodes t ++ nodes e) := hfound
      refine .cursor <| .ite (.pure he') ?_
      refine (Runs.ended he'.nonempty (Nat.le_trans hstart hst) hbefore).mono
        fun state f h _ _ _ => ?_
      cases state <;> exact (h _ rfl).1
  · exact .pure he

theorem runs_suffixes {calls : Bool} {start : Nat} {e : Node} {c : Cursor}
    (hstart : start ≤ c.span.start) (he : Formed source start c.lastStop e) :
    Runs source (suffixes g calls start e) c fun n d => Formed source start d.lastStop n := by
  unfold suffixes
  refine Runs.bind (P := fun state d => Formed source start d.lastStop state.1) ?_
    fun state d hstate _ hst _ => ?_
  · refine Runs.loop (Q := fun state d => Formed source start d.lastStop state.1) he
      fun state d hstate _ hst _ => ?_
    refine (runs_suffixStep g (Nat.le_trans hstart hst) hstate).mono fun next _ h _ _ _ => ?_
    cases next <;> exact h
  · obtain ⟨e, chained⟩ := state
    exact .ite (.wrapped (Nat.le_trans hstart hst) hstate) (.pure hstate)

instance : Spans source (leftHandRule g) :=
  ⟨fun c => .position <| (Spans.runs c).bind fun _ _ he _ hst _ => runs_suffixes g hst he⟩

instance : Spans source (constructedRule g) :=
  ⟨fun c => .position <| (Spans.runs c).bind fun _ _ he _ hst _ => runs_suffixes g hst he⟩

/-! ## Operators -/

theorem formed_markCallPure {lo hi : Nat} {e : Node} (he : Formed source lo hi e) :
    Formed source lo hi (markCallPure e) := by
  unfold markCallPure
  split
  · exact he.remade rfl (by simp [Node.kind]) <|
      sameCalls_nodes (by decide) (by decide) (sameCalls_nodes (by decide) (by decide) (.refl _))
  · exact he.remade rfl (by simp [Node.kind]) (sameCalls_nodes (by decide) (by decide) (.refl _))
  · exact he.remade rfl (by simp [Node.kind]) (sameCalls_nodes (by decide) (by decide) (.refl _))
  · exact he

theorem runs_updateRest {start : Nat} {e : Node} {c : Cursor} (hstart : start ≤ c.span.start)
    (he : Formed source start c.lastStop e) :
    Runs source (updateRest start e) c fun n d => Formed source start d.lastStop n := by
  unfold updateRest
  dsimp only
  exact .cursor <| .ite (.ite .refuse (.wrapped hstart he)) (.pure he)

instance : Spans source (unaryRule g) := by
  refine ⟨fun c => .position <| .cursor ?_⟩
  extract_lets +onlyGivenNames isPure operand
  have hoperand : ∀ kind text, kind.Plain → Runs source (operand kind text) c fun n d =>
      Formed source c.span.start d.lastStop n := by
    intro kind text hkind
    have : Holds kind.Plain := ⟨hkind⟩
    exact .own
  have hcall : Runs source (do
      let e ← leftHandRule g
      let e := if isPure then markCallPure e else e
      updateRest c.span.start e) c fun n d => Formed source c.span.start d.lastStop n := by
    refine (Spans.runs c).bind fun e d he _ hst _ => runs_updateRest hst ?_
    split
    · exact formed_markCallPure he
    · exact he
  dsimp only
  split
  · refine .ite (hoperand _ _ trivial)
      (.ite .own (.still fun s => .still fun s' => .ite .own hcall))
  · exact .ite (hoperand _ _ trivial) (.still fun s => .ite (hoperand _ _ trivial) hcall)
  · next htoken =>
    refine .still fun n => .still fun s => .ite ?_ .refuse
    exact formed_leaf (by simp [Cursor.Known, htoken]) (by simp)
  · exact (Spans.runs c).bind fun e d he _ hst _ => runs_updateRest hst he

/-- An operator takes characters, so that it can be read anew as one token. -/
theorem runs_operatorAt (c : Cursor) : Runs source operatorAt c fun found d =>
    d = c ∧ ∀ op n rest, found = some (op, n, rest) → Shrinks c.here rest := by
  refine .standing fun hc => .cursor ?_
  split
  · next htoken =>
    have hknown : Shrinks c.here c.rest := hc.shrinks (by simp [htoken]) (by simp [htoken])
    dsimp only
    split
    · next p rest hfront =>
      refine .pure ⟨rfl, fun op n r h => ?_⟩
      simp only [Option.map_eq_some_iff, Prod.mk.injEq] at h
      obtain ⟨_, -, -, -, rfl⟩ := h
      exact shrinks_firstFront? (by decide) hfront
    · exact .pure ⟨rfl, by rintro _ _ _ ⟨⟩; exact hknown⟩
  · next htoken =>
    have hknown : Shrinks c.here c.rest := hc.shrinks (by simp [htoken]) (by simp [htoken])
    refine .pure ⟨rfl, fun op n r h => ?_⟩
    simp only [Option.map_eq_some_iff, Prod.mk.injEq] at h
    obtain ⟨_, -, -, -, rfl⟩ := h
    exact hknown
  · next htoken =>
    have hknown : Shrinks c.here c.rest := hc.shrinks (by simp [htoken]) (by simp [htoken])
    refine .still fun s => .ite (.pure ⟨rfl, by simp⟩) (.pure ⟨rfl, fun op n r h => ?_⟩)
    simp only [Option.map_eq_some_iff, Prod.mk.injEq] at h
    obtain ⟨_, -, -, -, rfl⟩ := h
    exact hknown
  · exact .pure ⟨rfl, by simp⟩

/-- Pending operands and the current one, each behind the ones before. -/
def Waiting (source : List Char) (lo : Nat) : Nat → List Pending → Node → Prop
  | hi, [], e => Formed source lo hi e
  | hi, (a, _, _) :: stack, e =>
    ∃ mid, Waiting source lo mid stack a ∧ Formed source mid hi e

theorem Waiting.formed {lo hi : Nat} {stack : List Pending} {e : Node}
    (h : Waiting source lo hi stack e) : Formed source lo hi e := by
  induction stack generalizing hi e with
  | nil => exact h
  | cons p stack ih =>
    obtain ⟨a, _, _⟩ := p
    obtain ⟨mid, ha, he⟩ := h
    have := ih ha
    exact he.mono (Nat.le_trans this.starts (Nat.le_trans (Nat.le_of_lt this.solid) this.stops))
      (Nat.le_refl _)

/-- Another current operand. -/
theorem Waiting.map {lo hi hi' : Nat} {stack : List Pending} {e e' : Node}
    (h : Waiting source lo hi stack e)
    (he : ∀ lo, Formed source lo hi e → Formed source lo hi' e') :
    Waiting source lo hi' stack e' := by
  cases stack with
  | nil => exact he lo h
  | cons p stack =>
    obtain ⟨mid, ha, hmid⟩ := h
    exact ⟨mid, ha, he mid hmid⟩

theorem runs_reduce {lo hi level : Nat} {right : Bool} {stack : List Pending} {e : Node}
    {c : Cursor} (h : Waiting source lo hi stack e) :
    Runs source (reduce level right stack e) c fun state d =>
      d = c ∧ Waiting source lo hi state.1 state.2 := by
  induction stack generalizing hi e with
  | nil => exact .pure ⟨rfl, h⟩
  | cons p stack ih =>
    obtain ⟨a, op, n⟩ := p
    unfold reduce
    refine .ite (.ite .refuse (ih ?_)) (.pure ⟨rfl, h⟩)
    obtain ⟨mid, ha, he⟩ := h
    refine ha.map fun lo hlo => ?_
    have hstart := hlo.starts
    have hsolid := hlo.solid
    have hstop := hlo.stops
    have hstart' := he.starts
    have hsolid' := he.solid
    refine .node trivial hlo.starts (by dsimp only; omega) he.stops ?_
    have hright : Laid source e.span.start e.span.stop [e] := he.laid
    exact hlo.laid.append hright (by omega) (by omega) (by dsimp only; omega)

theorem Waiting.later {lo hi hi' : Nat} {stack : List Pending} {e : Node}
    (h : Waiting source lo hi stack e) (hle : hi ≤ hi') : Waiting source lo hi' stack e :=
  h.map fun _ he => he.mono (Nat.le_refl _) hle

instance : Spans source (binaryRule g) := by
  refine ⟨fun c => (Spans.runs c).bind fun first c₁ hfirst _ hst _ => ?_⟩
  have hstart : Waiting source c.span.start c₁.lastStop [] first := hfirst
  refine Runs.loop (Q := fun (state : List Pending × Node) d =>
    Waiting source c.span.start d.lastStop state.1 state.2) hstart
    fun ⟨stack, e⟩ d hwaiting _ _ _ => .cursor <| .still fun s => .ite ?_ ?_
  · refine (runs_reduce hwaiting).bind fun ⟨stack, e⟩ b ⟨hb, hreduced⟩ _ _ _ => ?_
    subst hb
    dsimp only at hreduced
    have hafter : ∀ t f, Laid source b.lastStop f.lastStop [t] → b.lastStop ≤ f.lastStop →
        Runs source (do
          let e ← Parser.finish e.span.start .typed (Node.withType [e] t)
          return .inl (stack, e) : Parser ((List Pending × Node) ⊕ Node)) f fun state d =>
            state.elim (fun state => Waiting source c.span.start d.lastStop state.1 state.2)
              (Formed source c.span.start d.lastStop) := by
      rintro t f ht hf s _ _ hs hf' ⟨⟩
      refine ⟨hf', Nat.le_refl _, Nat.le_refl _, hreduced.map fun lo he => ?_⟩
      have hsolid := he.solid
      have hstop := he.stops
      refine .node trivial he.starts (by dsimp only; omega) (Nat.le_refl _) ?_
      exact (sameCalls_withType [e] t).laid
        (he.laid.append ht (by omega) hstop (Nat.le_trans hstop hf))
    refine .seq fun _ b' hle _ hbehind => Runs.laid.bind fun t f ht hle' _ _ => ?_
    exact hafter t f (ht.mono (by omega) (Nat.le_refl _)) (by omega)
  · refine (runs_operatorAt d).bind fun found b ⟨hb, hfound⟩ _ _ _ => ?_
    subst hb
    rcases found with _ | ⟨op, n, rest⟩
    · exact (runs_reduce hwaiting).bind fun state b ⟨hb, hreduced⟩ _ _ _ =>
        .pure (hb ▸ hreduced.formed)
    · have hrest := hfound op n rest rfl
      dsimp only
      refine .ite .refuse ?_
      refine (runs_reduce hwaiting).bind fun ⟨stack, e⟩ b' ⟨hb, hreduced⟩ _ _ _ => ?_
      subst hb
      refine (Runs.retoken hrest fun _ => Token.noConfusion).bind fun _ f _ hle₁ _ _ =>
        .seq fun _ f' hle₂ _ hbehind =>
          (Spans.runs f').bind fun operand f'' hoperand _ _ _ => .pure ?_
      exact ⟨f'.lastStop, hreduced.later (by omega), hoperand.mono (by omega) (Nat.le_refl _)⟩

/-! ## Assignments -/

instance : Spans source (parenthesizedArrow g) := by
  unfold parenthesizedArrow
  dsimp only
  exact .own

instance : Still atAsyncBare := by
  unfold atAsyncBare
  infer_instance

/-- An operator takes characters, so that it can be read anew as one token. -/
theorem runs_assignmentAt (c : Cursor) : Runs source assignmentAt c fun found d =>
    d = c ∧ ∀ op rest, found = some (op, rest) → Shrinks c.here rest := by
  refine .standing fun hc => .cursor ?_
  split
  · refine .pure ⟨rfl, fun op r h => ?_⟩
    simp only [Option.map_eq_some_iff, Prod.mk.injEq] at h
    obtain ⟨⟨p, rest⟩, hfront, -, rfl⟩ := h
    exact shrinks_firstFront? (by decide) hfront
  · next htoken =>
    refine .pure ⟨rfl, fun op r h => ?_⟩
    split at h
    · cases h
      exact hc.shrinks (by simp [htoken]) (by simp [htoken])
    · cases h
  · exact .pure ⟨rfl, by simp⟩

theorem runs_assignmentRest {start : Nat} {e : Node} {c : Cursor} (hstart : start ≤ c.span.start)
    (he : Formed source start c.lastStop e) :
    Runs source (assignmentRest g start e) c fun n d => Formed source start d.lastStop n := by
  refine (runs_assignmentAt c).bind fun found b ⟨hb, hfound⟩ _ _ _ => ?_
  subst hb
  rcases found with _ | ⟨op, rest⟩
  · refine .seq fun found d hle hst _ => ?_
    have he' := he.mono (Nat.le_refl _) hle
    exact .ite (.wrapped (Nat.le_trans hstart hst) he') (.pure he')
  · dsimp only
    split
    · exact .refuse
    · next target htarget =>
      have hsame : SameCalls [target] [e] := by
        split at htarget
        · exact sameCalls_targets.1 e target htarget
        · split at htarget <;> cases htarget
          exact .refl _
      refine (Runs.retoken (hfound op rest rfl) fun _ => Token.noConfusion).bind
        fun _ f _ hle hst _ => ?_
      have hbefore : Laid source start f.lastStop ([] ++ nodes target) :=
        hsame.laid (he.between.mono (Nat.le_refl _) hle)
      have hlt : start < f.lastStop := Nat.lt_of_lt_of_le he.nonempty hle
      exact (Runs.ended hlt (Nat.le_trans hstart hst) hbefore).mono fun n _ h _ _ _ => (h n rfl).1

instance : Spans source (assignmentRule g) := by
  refine ⟨fun c => .position <| .cursor <| .still fun n => .still fun s => .ite .own <|
    .still fun named => .ite .own <| .still fun bare => .ite .own <| .still fun likely => ?_⟩
  extract_lets rest
  have hrest : ∀ arrow d, c.span.start ≤ d.span.start →
      (∀ e ∈ arrow, Formed source c.span.start d.lastStop e) →
      Runs source (rest arrow) d fun n e => Formed source c.span.start e.lastStop n := by
    intro arrow d hst harrow
    unfold rest
    split
    · exact .pure (harrow _ rfl)
    · refine (Spans.runs d).bind fun e f he _ hst' _ =>
        runs_assignmentRest g (Nat.le_trans hst hst') ?_
      exact he.mono hst (Nat.le_refl _)
  clear_value rest
  cases likely with
  | yes =>
    refine (Spans.runs c).bind fun e d he _ hst _ => .handed ?_
    exact hrest _ _ hst (by rintro _ ⟨⟩; exact he)
  | no => exact .handed (hrest _ _ (Nat.le_refl _) nofun)
  | maybe => exact (Spans.runs c).attempt.bind fun arrow d harrow _ hst _ => hrest _ _ hst harrow

instance : Spans source (expressionRule g) := by
  refine ⟨fun c => .position <| (Spans.runs c).bind fun first d hfirst _ hst _ => ?_⟩
  exact .still fun more => .ite (.wrapped hst hfirst) (.pure hfirst)

end ScriptLoader.Syntax.Grammar
