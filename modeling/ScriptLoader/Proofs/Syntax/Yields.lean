import ScriptLoader.Syntax.Program

/-!
# Results of parsers

What holds of all that a parser answers is shown along the way it is put together.

* `Parser.Yields`: what holds of every result of a parser, with a rule for each way to put parsers
  together.
* `Grammar.Clausal`: what only imports and exports have to be asked for. If their rules yield it,
  it holds of every statement of a program (`Grammar.Clausal.of_read`).
-/

namespace ScriptLoader.Syntax

/-! ## Results of parsers -/

namespace Parser

variable {α β : Type} {P : α → Prop} {Q : β → Prop}

/-- Every result of the parser satisfies `P`. -/
def Yields (p : Parser α) (P : α → Prop) : Prop :=
  ∀ s c a d, p s c = .ok (a, d) → P a

namespace Yields

theorem bind {p : Parser α} {f : α → Parser β} (hp : p.Yields P)
    (hf : ∀ a, P a → (f a).Yields Q) : (p >>= f).Yields Q := by
  intro s c b e h
  change andThen p f s c = .ok (b, e) at h
  unfold andThen at h
  split at h
  · next a d ha => exact hf a (hp s c a d ha) s d b e h
  · cases h

/-- A parser behind another one, of which nothing has to be known. -/
theorem seq {p : Parser α} {f : α → Parser β} (hf : ∀ a, (f a).Yields Q) : (p >>= f).Yields Q :=
  have hp : p.Yields fun _ => True := fun _ _ _ _ _ => trivial
  hp.bind fun a _ => hf a

theorem pure {a : α} (h : P a) : (Pure.pure a : Parser α).Yields P := by
  rintro s c _ d ⟨⟩
  exact h

theorem refuse {reason : String} : (Parser.refuse reason : Parser α).Yields P := by
  rintro s c a d ⟨⟩

theorem within {p : Parser α} (f : Setting → Setting) (h : p.Yields P) :
    (Parser.within f p).Yields P := fun s => h (f s)

theorem finish {start : Nat} {kind : Kind} {cs : List Node} {text : String} {marks : List Mark}
    {P : Node → Prop} (h : ∀ span, P (.mk kind marks text span cs)) :
    (Parser.finish start kind cs text marks).Yields P := by
  rintro s c _ d ⟨⟩
  exact h _

theorem leaf {kind : Kind} {text : String} {marks : List Mark} {P : Node → Prop}
    (h : ∀ span, P (.mk kind marks text span [])) : (Parser.leaf kind text marks).Yields P :=
  seq fun _ => seq fun _ => finish h

/-- What every round keeps holds of the last one. -/
theorem rounds {step : α → Parser (α ⊕ β)} (hstep : ∀ a, P a → (step a).Yields (Sum.elim P Q))
    (fuel : Nat) {a : α} (ha : P a) : (Parser.rounds step fuel a).Yields Q := by
  induction fuel generalizing a with
  | zero => exact refuse
  | succ fuel ih =>
    refine (hstep a ha).bind fun next hnext => ?_
    cases next with
    | inl a => exact ih hnext
    | inr b => exact pure hnext

theorem loop {step : α → Parser (α ⊕ β)} {a : α} (ha : P a)
    (hstep : ∀ a, P a → (step a).Yields (Sum.elim P Q)) : (Parser.loop step a).Yields Q :=
  fun s c => rounds hstep _ ha s c

theorem commaUntil {close : String} {item : Parser α} (h : item.Yields P) :
    (Parser.commaUntil close item).Yields fun items => ∀ a ∈ items, P a := by
  refine loop (P := fun items => ∀ a ∈ items, P a) (by simp) fun acc hacc => ?_
  refine seq fun _ => ?_
  split
  · exact pure fun a ha => hacc a (List.mem_reverse.1 ha)
  · refine h.bind fun a ha => seq fun _ => ?_
    have hcons : ∀ b ∈ a :: acc, P b := List.forall_mem_cons.2 ⟨ha, hacc⟩
    split
    · exact pure fun b hb => hcons b (List.mem_reverse.1 hb)
    · exact seq fun _ => pure hcons

end Yields

end Parser

/-! ## Statements -/

/-- The rules for statements make nodes of the kind themselves: it is none of an import or an export
of names, and none of a directive, which is not told from an expression before its place is
known. -/
def Kind.Common (kind : Kind) : Prop :=
  kind ≠ .importDecl ∧ kind ≠ .exportNames ∧ kind ≠ .exportAll ∧ kind ≠ .directive

instance (kind : Kind) : Decidable (Kind.Common kind) := inferInstanceAs (Decidable (_ ∧ _))

namespace Grammar

open Syntax.Parser

/-- Both a keyword's statement and the answer that there is none. -/
def IfAny (P : Node → Prop) (n : Option Node) : Prop := ∀ m ∈ n, P m

theorem ifAny_some {P : Node → Prop} {p : Parser Node} (hp : p.Yields P) :
    (do return some (← p)).Yields (IfAny P) :=
  hp.bind fun _ hn => .pure fun _ hm => Option.some.inj hm ▸ hn

theorem yields_statementsUntil {P : Node → Prop} {g : Grammar} (hg : (g .statement).Yields P)
    (close : Parser Bool)
    (hdirective : ∀ text span, P (.mk .directive [] text span [])) :
    (statementsUntil g close).Yields fun ns => ∀ n ∈ ns, P n := by
  refine Yields.loop (P := fun x : Bool × List Node => ∀ n ∈ x.2, P n) (by simp)
    fun ⟨directives, acc⟩ hacc => .seq fun ended => ?_
  split
  · exact .pure fun n hn => hacc n (List.mem_reverse.1 hn)
  · refine .seq fun c => hg.bind fun n hn => ?_
    split
    · exact .pure (List.forall_mem_cons.2 ⟨hdirective _ _, hacc⟩)
    · exact .pure (List.forall_mem_cons.2 ⟨hn, hacc⟩)

/-- Whatever its marks, text and span are, a statement has the property unless it is an import or an
export of names; and the rules of these yield it. -/
structure Clausal (P : Node → Prop) : Prop where
  of_kind : ∀ {kind marks text span cs}, Kind.Common kind → P (.mk kind marks text span cs)
  congr : ∀ {kind marks marks' text text' span span' cs},
    P (.mk kind marks text span cs) → P (.mk kind marks' text' span' cs)
  importDeclaration : importDeclaration.Yields P
  exportList : ∀ start typeOnly, (exportList start typeOnly).Yields P
  exportStar : ∀ start typeOnly, (exportStar start typeOnly).Yields P

namespace Clausal

variable {P : Node → Prop} {g : Grammar} (hP : Clausal P)

include hP

theorem yields_block : (block g).Yields P :=
  .seq fun _ => .seq fun _ => .seq fun _ => .finish fun _ => hP.of_kind (by decide)

theorem yields_functionRest (start : Nat) (async declares : Bool) :
    (functionRest g start async declares .functionDecl).Yields P := by
  unfold functionRest
  -- Each way through the rule ends with a node of another kind or a refusal, as in most rules
  -- below.
  repeat' first
    | exact .finish fun _ => hP.of_kind (by decide)
    | exact .refuse
    | refine .seq fun _ => ?_
    | split

theorem yields_classRest (start : Nat) (decorated : List Node) (marks : List Mark) :
    (classRest g start .classDecl decorated marks).Yields P := by
  unfold classRest
  repeat' first
    | exact .finish fun _ => hP.of_kind (by decide)
    | refine .seq fun _ => ?_
    | split

theorem yields_withSpan {n : Node} (span : Span) (h : P n) : P (n.withSpan span) := by
  cases n
  exact hP.congr h

theorem yields_variablesRest (start : Nat) (kind : String) (bare : Bool) :
    (variablesRest g start kind bare).Yields P :=
  .seq fun _ => .finish fun _ => hP.of_kind (by decide)

theorem yields_typedDeclaration (hg : (g .statement).Yields P) (start : Nat)
    (d : TypedDeclaration) : (typedDeclaration g start d).Yields P := by
  cases d with
  | declared =>
    refine .seq fun _ => Yields.bind (P := P) (.within _ hg) fun n hn => .pure ?_
    cases n
    exact hP.congr hn
  | abstractClass => exact .seq fun _ => hP.yields_classRest _ _ _
  | _ =>
    simp only [typedDeclaration, typeAliasDeclaration, interfaceDeclaration, enumDeclaration,
      namespaceDeclaration, ambientModuleDeclaration]
    repeat' first
      | exact .finish fun _ => hP.of_kind (by decide)
      | exact .pure (hP.of_kind (by decide))
      | exact .refuse
      | refine .seq fun _ => ?_
      | split

theorem yields_exportDeclaration (start : Nat) (decorated : List Node) :
    (exportDeclaration g start decorated).Yields P := by
  refine .seq fun _ => .seq fun c => .seq fun s => ?_
  repeat' first
    | exact hP.exportList _ _
    | exact hP.exportStar _ _
    | exact .finish fun _ => hP.of_kind (by decide)
    | exact .refuse
    | refine .seq fun _ => ?_
    | split
    | dsimp only

theorem yields_expressionStatement : (expressionStatement g).Yields P := by
  refine .seq fun start => .seq fun n => .seq fun found => ?_
  split
  · exact .seq fun _ => .seq fun _ => .seq fun _ => .finish fun _ => hP.of_kind (by decide)
  · exact .seq fun _ => .seq fun _ => .finish fun _ => hP.of_kind (by decide)

theorem yields_countingRest (start : Nat) (first : Node) :
    (countingRest g start first).Yields P := by
  unfold countingRest
  repeat' first
    | exact .finish fun _ => hP.of_kind (by decide)
    | refine .seq fun _ => ?_
    | split

theorem yields_overRest (start : Nat) (target : Node) (waits : Bool) :
    (overRest g start target waits).Yields P := by
  unfold overRest
  repeat' first
    | exact .finish fun _ => hP.of_kind (by decide)
    | exact .refuse
    | refine .seq fun _ => ?_
    | split

theorem yields_forStatement : (forStatement g).Yields P := by
  unfold forStatement
  repeat' first
    | exact hP.yields_countingRest _ _
    | exact hP.yields_overRest _ _ _
    | exact .refuse
    | refine .seq fun _ => ?_
    | split
    | dsimp only

theorem yields_tryStatement : (tryStatement g).Yields P := by
  unfold tryStatement
  repeat' first
    | exact .finish fun _ => hP.of_kind (by decide)
    | exact .refuse
    | refine .seq fun _ => ?_
    | split
    | dsimp only

theorem yields_jump (kind : Kind) (hkind : kind = .continueStmt ∨ kind = .breakStmt) :
    (jump kind).Yields P := by
  have hjump : ∀ label span, P (.mk kind [] "" span [label]) := by
    rcases hkind with rfl | rfl <;> exact fun _ _ => hP.of_kind (by decide)
  unfold jump
  repeat' first
    | exact .finish fun span => hjump _ span
    | refine .seq fun _ => ?_
    | split

theorem yields_someFinish (start : Nat) {kind : Kind} {cs : List Node}
    (hkind : Kind.Common kind) :
    (do return some (← Parser.finish start kind cs)).Yields (IfAny P) :=
  ifAny_some (.finish fun _ => hP.of_kind hkind)

theorem yields_keywordStatement (w : String) : (keywordStatement g w).Yields (IfAny P) := by
  refine .seq fun start => ?_
  -- The keywords whose rules stand elsewhere, in their order, and no keyword at all.
  split
  case h_2 => exact ifAny_some hP.yields_forStatement
  case h_5 => exact ifAny_some (hP.yields_jump _ (Or.inl rfl))
  case h_6 => exact ifAny_some (hP.yields_jump _ (Or.inr rfl))
  case h_11 => exact ifAny_some hP.yields_tryStatement
  case h_13 => exact ifAny_some (hP.yields_functionRest _ _ _)
  case h_14 => exact ifAny_some (hP.yields_classRest _ _ _)
  case h_15 => exact ifAny_some (hP.yields_exportDeclaration _ _)
  case h_16 =>
    refine .seq fun n => ?_
    split
    · exact .pure (by rintro _ ⟨⟩)
    · exact ifAny_some hP.importDeclaration
  case h_17 => exact .pure (by rintro _ ⟨⟩)
  all_goals
    repeat' first
      | exact hP.yields_someFinish start (by decide)
      | exact .refuse
      | refine .seq fun _ => ?_
      | split
      | dsimp only

theorem yields_statementRule (hg : (g .statement).Yields P) :
    (statementRule g).Yields P := by
  unfold statementRule
  refine .seq fun start => .seq fun c => ?_
  split
  · exact hP.yields_block
  · exact .leaf fun _ => hP.of_kind (by decide)
  · repeat' first
      | exact hP.yields_exportDeclaration _ _
      | exact hP.yields_classRest _ _ _
      | refine .seq fun _ => ?_
      | split
  · next w _ =>
    refine .seq fun kind => ?_
    split
    · have hvariables : (Parser.within (fun s => { s with allowIn := true, arrowTypes := true })
          (variablesRest g start kind false)).Yields P :=
        .within _ (hP.yields_variablesRest start kind false)
      exact .seq fun _ => hvariables.bind fun v hv => .seq fun _ => .seq fun _ =>
        .pure (hP.yields_withSpan _ hv)
    · refine .seq fun typed => ?_
      split
      · exact hP.yields_typedDeclaration hg _ _
      · refine (hP.yields_keywordStatement w).bind fun found hfound => ?_
        split
        · exact .pure (hfound _ rfl)
        · refine .seq fun n => ?_
          split
          · exact .seq fun _ => hP.yields_functionRest _ _ _
          · exact hP.yields_expressionStatement
  · exact hP.yields_expressionStatement

theorem yields_ofDepth (depth : Nat) : (Grammar.ofDepth depth .statement).Yields P := by
  induction depth with
  | zero => exact .refuse
  | succ depth ih => exact hP.yields_statementRule ih

/-- Every statement of a program has the property, if directives do. -/
theorem of_read {dialect : Dialect} {source : List Char} {program : Program}
    (hdirective : ∀ text span, P (.mk .directive [] text span []))
    (h : Program.read dialect source = .ok program) : ∀ n ∈ program.statements, P n := by
  unfold Program.read at h
  dsimp only at h
  split at h
  · cases h
  · next statements last hs =>
    have hstatements : ∀ n ∈ statements, P n :=
      yields_statementsUntil (hP.yields_ofDepth _) _ hdirective _ _ _ _ hs
    split at h
    · cases h
    · split at h
      · cases h
      · cases h
        exact hstatements

end Clausal

end Grammar

end ScriptLoader.Syntax
