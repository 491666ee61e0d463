import ScriptLoader.Proofs.Places.Laying
import ScriptLoader.Syntax.Program

/-!
# Names, keys and types in a source

* `Grammar.Placed`: a grammar whose trees stand where they were read. The rules over such a grammar
  are shown to be one.
* The parsers for names, keys and templates, and those for types.
-/

namespace ScriptLoader.Syntax.Grammar

open Syntax.Parser Compile.Linked

set_option synthInstance.maxSize 1000000

/-- The trees that the grammar reads stand where they were read. -/
class Placed (source : List Char) (g : Grammar) : Prop where
  expression : Spans source (g .expression)
  assignment : Spans source (g .assignment)
  unary : Spans source (g .unary)
  leftHand : Spans source (g .leftHand)
  constructed : Spans source (g .constructed)
  binding : Lays source [] (g .binding)
  strictBinding : Strict source (g .binding)
  statement : ∀ c, Runs source (g .statement) c fun n d =>
    Formed source c.span.start d.lastStop n ∧ n.kind.Plain
  type : Lays source [] (g .type)
  /-- The last bracket of an element is not read yet. -/
  element : ∀ c, Runs source (g .element) c fun n d => Formed source c.span.start d.span.stop n

variable {source : List Char}

section

variable (g : Grammar) [hg : Placed source g]

instance : Spans source (g .expression) := hg.expression

instance : Spans source (g .assignment) := hg.assignment

instance : Spans source (g .unary) := hg.unary

instance : Spans source (g .leftHand) := hg.leftHand

instance : Spans source (g .constructed) := hg.constructed

instance : Lays source [] (g .binding) := hg.binding

instance : Strict source (g .binding) := hg.strictBinding

instance : Spans source (g .statement) := ⟨fun c => (hg.statement c).mono fun _ _ h _ _ _ => h.1⟩

instance : Lays source [] (g .type) := hg.type

/-- An element whose last bracket is a token in front of others. -/
instance : Spans source (do let e ← g .element; advance; return e) where
  runs c := (hg.element c).bind fun _ _ he _ _ _ => Runs.advance.bind fun _ _ ⟨hstop, _⟩ _ _ _ =>
    .pure (he.mono (Nat.le_refl _) (Nat.le_of_eq hstop.symm))

end

/-! ## Settings -/

instance (d : Setting → Dialect) (allowIn awaitOk yieldOk returnOk ambient conditional arrow :
    Setting → Bool) : KeepsSize fun s =>
      ⟨d s, s.size, allowIn s, awaitOk s, yieldOk s, returnOk s, ambient s, conditional s, arrow s⟩ :=
  ⟨fun _ => rfl⟩

instance : KeepsSize inside := ⟨fun _ => rfl⟩

/-! ## Names -/

instance : Still atVariable := ⟨by rintro s c _ d ⟨⟩; rfl⟩

instance : Still atName := ⟨by rintro s c _ d ⟨⟩; rfl⟩

instance : Still next := inferInstanceAs (Still (ahead _))

/-- A leaf for the token at the cursor. If it is a string, it is the token's. -/
theorem leaf_of_solid {kind : Kind} {text : String} {marks : List Mark} {c : Cursor}
    (hsolid : c.span.start < c.span.stop) (hkind : kind = .stringLit → c.token = .string text) :
    Runs source (leaf kind text marks) c fun n d =>
      Formed source c.span.start d.lastStop n ∧ n.kind = kind := by
  refine .standing fun hc => .position <| Runs.advance.bind fun _ d ⟨hstop, _, _⟩ _ _ _ => ?_
  rintro s _ _ hs hd ⟨⟩
  refine ⟨hd, Nat.le_refl _, Nat.le_refl _, ?_, rfl⟩
  exact {
    starts := Nat.le_refl _
    solid := hstop ▸ hsolid
    stops := Nat.le_refl _
    laid := sameCalls_leaf.laid .nil
    literal := fun h => by
      obtain ⟨hrest, fuel, hscan⟩ := hc.string text (hkind h)
      rw [hc.here, hrest, ← hstop] at hscan
      exact ⟨rfl, fuel, hscan⟩ }

theorem formed_leaf {kind : Kind} {text : String} {marks : List Mark} {c : Cursor}
    (hknown : c.Known) (hkind : kind = .stringLit → c.token = .string text) :
    Runs source (leaf kind text marks) c fun n d => Formed source c.span.start d.lastStop n :=
  .standing fun hc => (leaf_of_solid (hc.solid hknown.1 hknown.2) hkind).mono fun _ _ h _ _ _ => h.1

/-- A parser that answers trees without calls. -/
theorem lays_of_callFree {α : Type} [HasNodes α] {p : Parser α} [Moves source p]
    (h : p.Yields fun a => ∀ n ∈ nodes a, CallFree n) : Lays source [] p := by
  refine .of_runs fun c s a d hs hc hr => ?_
  obtain ⟨hd, hle, hst, -⟩ := (Moves.runs (p := p) c) s a d hs hc hr
  exact ⟨hd, hle, hst, (sameCalls_of_callFree (h s c a d hr)).laid .nil⟩

instance (kind : Kind) [hkind : Holds kind.Plain] : Spans source (variable_ kind) := by
  refine ⟨fun c => .cursor ?_⟩
  split
  · next htoken =>
    refine .still fun s => ?_
    split
    · exact formed_leaf (by simp [Cursor.Known, htoken]) fun h => absurd h hkind.holds.ne_stringLit
    · exact .refuse
  · exact .refuse

instance : Spans source word := by
  refine ⟨fun c => .cursor ?_⟩
  split
  · next htoken =>
    exact formed_leaf (by simp [Cursor.Known, htoken]) (by simp)
  · exact .refuse

instance : Spans source stringLiteral := by
  refine ⟨fun c => .cursor ?_⟩
  split
  · next v htoken =>
    exact formed_leaf (by simp [Cursor.Known, htoken]) fun _ => htoken
  · exact .refuse

variable (g : Grammar) [Placed source g]

/-! ## Templates and keys -/

instance : Moves source continueTemplate := by
  refine ⟨fun c => .standing fun hstands s a d hs hc h => ?_⟩
  unfold continueTemplate at h
  split at h
  · next htoken =>
    have hshrinks : Shrinks c.here c.rest := hstands.shrinks (by simp [htoken]) (by simp [htoken])
    have hsuffix := suffix_scanQuasi (s.size - c.span.stop + 2) c.rest
    have hquasi : ∀ v, (scanQuasi (s.size - c.span.stop + 2) c.rest).1 ≠ .string v := by
      unfold scanQuasi
      split <;> simp
    have hretoken := @Runs.retoken source _ _ _
      ⟨hsuffix.trans hshrinks.1, Nat.lt_of_le_of_lt hsuffix.length_le hshrinks.2⟩ hquasi
    exact (hretoken.mono fun _ _ _ _ _ _ => trivial) s a d hs hc h
  · cases h

instance (part : Parser Node) [Lays source [] part] (tagged : Bool) :
    Lays source [] (templatePieces part tagged) := by
  unfold templatePieces
  refine .loop inferInstance (leaves_nil []) fun acc => .seq fun c => ?_
  split <;> infer_instance

/-- The last round reads the last text. -/
instance (part : Parser Node) [Moves source part] (tagged : Bool) :
    Strict source (templatePieces part tagged) := by
  refine .loop fun acc c => .cursor ?_
  split
  · next hquasi =>
    split
    · exact .refuse
    · dsimp only
      split
      · exact Runs.advance.bind fun _ e he _ _ _ => .pure fun _ _ =>
          he.2.2 (by simp [hquasi]) (by simp [hquasi])
      · exact .seq fun _ _ _ _ _ => .seq fun _ _ _ _ _ => .seq fun _ _ _ _ _ =>
          .pure fun _ => nofun
  · exact .refuse

instance (part : Parser Node) [Lays source [] part] (tagged : Bool) :
    Spans source (templateOf part tagged) := by
  unfold templateOf
  exact .own

instance : Lays source [] (propertyKey g) := by
  unfold propertyKey
  refine .seq fun c => ?_
  split <;> infer_instance

/-! ## Types -/

instance {before : List Node} : AmongOne untyped before before :=
  inferInstanceAs (AmongOne (.ofTypes []) before before)

instance {p : Parser Node} [Lays source [] p] : Lays source [] (attempt p) :=
  .of_runs fun _ => Runs.laid.attempt.mono fun found _ h _ _ _ => by
    cases found with
    | none => exact .nil
    | some n => exact h n rfl

instance : Lays source [] (type g) := by
  unfold type
  infer_instance

/-- The first half of a token is read anew. -/
instance : Moves source openAngle := by
  refine ⟨fun c => .cursor <| .standing fun hstands => ?_⟩
  split
  · exact Moves.runs c
  · next htoken =>
    have hshrinks : Shrinks c.here (c.here.drop 1) := by
      have := (hstands.shrinks (by simp [htoken]) (by simp [htoken])).2
      exact ⟨List.drop_suffix _ _, by rw [List.length_drop]; omega⟩
    exact (Runs.retoken hshrinks fun _ => Token.noConfusion).bind fun _ d _ _ _ _ => Moves.runs d
  · exact Moves.runs c

instance : Lays source [] (typeArgumentsRest g) := by
  unfold typeArgumentsRest
  dsimp only
  infer_instance

instance : Lays source [] (typeArguments? g) := by
  unfold typeArguments?
  infer_instance

instance : Lays source [] (typeParameter g) := by
  unfold typeParameter
  dsimp only
  infer_instance

instance : Lays source [] (typeParameters? g) := by
  unfold typeParameters?
  dsimp only
  infer_instance

instance : Lays source [] (annotation? g) := by
  unfold annotation?
  infer_instance

instance : Lays source [] (signatureParameter g) := by
  unfold signatureParameter
  dsimp only
  infer_instance

instance : Lays source [] (signatureParameters g) := by
  unfold signatureParameters
  infer_instance

instance : Lays source [] (returnType g) := by
  unfold returnType
  infer_instance

instance : Lays source [] (resultType? g) := by
  unfold resultType?
  infer_instance

instance : Moves source (atFunctionType g) := by
  unfold atFunctionType
  dsimp only
  infer_instance

instance (parameters : Node) : Hands source (signatureRest g parameters) [parameters] := by
  have hlays : Lays source ([] ++ nodes parameters) (signatureRest g parameters) := by
    unfold signatureRest
    infer_instance
  exact ⟨hlays⟩

instance (parameters : Node) : Hands source (functionTypeRest g parameters) [parameters] := by
  have hlays : Lays source ([] ++ nodes parameters) (functionTypeRest g parameters) := by
    unfold functionTypeRest
    infer_instance
  exact ⟨hlays⟩

instance : Moves source endMember := by
  unfold endMember
  infer_instance

instance : Still atIndexSignature := inferInstanceAs (Still (ahead _))

instance : Lays source [] (indexSignature g) := by
  unfold indexSignature
  infer_instance

instance : Lays source [] (memberRest g) := by
  unfold memberRest
  infer_instance

instance : Lays source [] (keyedMember g) := by
  unfold keyedMember
  infer_instance

instance : Lays source [] (typeMember g) := by
  unfold typeMember
  dsimp only
  infer_instance

instance : Lays source [] (typeLiteralRest g) := by
  unfold typeLiteralRest
  infer_instance

instance : Still atMappedType := inferInstanceAs (Still (ahead _))

instance (item : Parser Bool) [Moves source item] : Moves source (signed item) := by
  unfold signed
  infer_instance

instance : Lays source [] (mappedType g) := by
  unfold mappedType
  dsimp only
  infer_instance

instance : Lays source [] (tupleElement g) := by
  unfold tupleElement
  dsimp only
  infer_instance

instance : Moves source entityName := by
  unfold entityName
  refine .seq fun named => ?_
  dsimp only
  split
  · infer_instance
  · refine .seq fun _ => .loop fun _ => .seq fun dotted => ?_
    split
    · refine .seq fun c => ?_
      split <;> infer_instance
    · infer_instance

instance : Lays source [] (typeArgumentsBehind? g) := by
  unfold typeArgumentsBehind?
  infer_instance

instance : Lays source [] (importTypeOptions g) := by
  unfold importTypeOptions
  infer_instance

instance : Lays source [] (importType g) := by
  unfold importType
  dsimp only
  infer_instance

instance : Lays source [] (typeQueryRest g) := by
  unfold typeQueryRest
  infer_instance

instance (w : String) : Lays source [] (namedType g w) := by
  unfold namedType
  infer_instance

instance : Lays source [] (primaryType g) := by
  unfold primaryType
  refine .seq fun c => ?_
  split
  case h_4 =>
    refine .seq fun _ => .seq fun c => ?_
    split <;> infer_instance
  all_goals infer_instance

instance : Moves source atTypeStart := by
  unfold atTypeStart
  infer_instance

instance : Lays source [] (postfixType g) := by
  unfold postfixType
  infer_instance

instance : Moves source typeOperators := by
  unfold typeOperators
  dsimp only
  infer_instance

instance : Lays source [] (constraint g) := by
  unfold constraint
  infer_instance

instance : Lays source [] (operatorType g) := by
  unfold operatorType
  refine .seq fun infers => ?_
  split
  · refine .seq fun bounded => ?_
    split
    · refine .bind inferInstance fun found => ?_
      cases found with
      | none => exact inferInstanceAs (Lays source [] (Pure.pure untyped))
      | some t => exact inferInstanceAs (Lays source ([] ++ nodes t) (Pure.pure t))
    · infer_instance
  · infer_instance

instance : Lays source [] (intersectionType g) := by
  unfold intersectionType
  infer_instance

instance : Lays source [] (unionType g) := by
  unfold unionType
  infer_instance

instance (checked : Node) : Hands source (conditionRest g checked) [checked] := by
  have hlays : Lays source ([] ++ nodes checked) (conditionRest g checked) := by
    unfold conditionRest
    infer_instance
  exact ⟨hlays⟩

instance : Lays source [] (typeRule g) := by
  unfold typeRule
  dsimp only
  infer_instance

end ScriptLoader.Syntax.Grammar
