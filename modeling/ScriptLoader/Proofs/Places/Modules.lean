import ScriptLoader.Proofs.Places.Expressions

/-!
# Imports and exports in a source

The names in clauses are leaves; a declaration is a tree from the place that it is given to its last
token.
-/

namespace ScriptLoader.Syntax.Grammar

open Syntax.Parser Compile.Linked

set_option synthInstance.maxSize 1000000

variable {source : List Char}

/-! ## Names and clauses -/

instance : Moves source exportName_ := by
  unfold exportName_
  infer_instance

instance : Lays source [] exportName_ :=
  lays_of_callFree (by simpa [nodes] using callFree_exportName)

instance : Moves source specifier := by
  unfold specifier
  dsimp only
  infer_instance

instance : Moves source importItem := by
  unfold importItem
  refine .seq fun start => .seq fun ⟨typeOnly, imported, local_⟩ => ?_
  dsimp only
  infer_instance

instance : Moves source exportItem := by
  unfold exportItem
  refine .seq fun start => .seq fun ⟨typeOnly, local_, exported⟩ => ?_
  dsimp only
  infer_instance

instance : Lays source [] exportItem :=
  lays_of_callFree (by simpa [nodes] using callFree_exportItem)

instance : Moves source attributesClause := by
  unfold attributesClause
  infer_instance

instance : Lays source [] attributesClause :=
  lays_of_callFree (by simpa [nodes] using callFree_attributesClause)

instance : Moves source importClause := by
  unfold importClause
  dsimp only
  infer_instance

instance : Lays source [] importClause := lays_of_callFree callFree_importClause

instance : Moves source fromClause := by
  unfold fromClause
  infer_instance

instance : Lays source [] fromClause :=
  lays_of_callFree (by simpa [nodes] using callFree_fromClause)

/-! ## Imports -/

instance : Lays source [] entity := by
  unfold entity
  infer_instance

section

variable (start : Nat) (name : Node) (typeOnly : Bool)

instance : Hands source (importEqualsRest start name typeOnly) [name] := by
  have hlays : Lays source ([] ++ nodes name) (importEqualsRest start name typeOnly) := by
    unfold importEqualsRest
    infer_instance
  exact ⟨hlays⟩

instance : Ends start (importEqualsRest start name typeOnly) := by
  unfold importEqualsRest
  infer_instance

instance : Strict source (importEqualsRest start name typeOnly) := by
  unfold importEqualsRest
  infer_instance

end

instance : Still atTypeWord := by
  unfold atTypeWord
  infer_instance

instance : Still phaseAt := by
  unfold phaseAt
  dsimp only
  infer_instance

/-- An import declaration, from its word on. -/
theorem runs_importDeclaration (c : Cursor) : Runs source importDeclaration c fun n d =>
    Formed source c.span.start d.lastStop n ∧ n.kind.Plain := by
  unfold importDeclaration
  dsimp only
  exact .position <| .formed (Nat.le_refl _) .nil

instance : Spans source importDeclaration :=
  ⟨fun c => (runs_importDeclaration c).mono fun _ _ h _ _ _ => h.1⟩

/-! ## Exports -/

section

variable (start : Nat) (typeOnly : Bool)

instance : Lays source [] (exportStar start typeOnly) := by
  unfold exportStar
  dsimp only
  infer_instance

instance : Ends start (exportStar start typeOnly) := by
  unfold exportStar
  dsimp only
  infer_instance

instance : Strict source (exportStar start typeOnly) := by
  unfold exportStar
  dsimp only
  infer_instance

theorem exportName_of_exportItem : exportItem.Yields fun n => n.kind = .exportName := by
  refine .seq fun start => .seq fun ⟨typeOnly, local_, exported⟩ => .seq fun s => ?_
  dsimp only
  split
  · exact .seq fun _ => .finish fun _ => rfl
  · exact .finish fun _ => rfl

/-- Names whose first parts are made anew. -/
theorem callFree_renamed {i : Node} {cs : List Node} (hkind : i.kind = .exportName)
    (hcs : ∀ n ∈ cs, CallFree n) : CallFree (i.withChildren cs) := by
  obtain ⟨kind, marks, text, span, ds⟩ := i
  obtain rfl : kind = .exportName := hkind
  exact callFree_of_children (by decide) hcs

theorem callFree_child {n : Node} (h : CallFree n) (i : Nat) : CallFree (n.child i) := by
  unfold Node.child
  cases hchild : n.children[i]? with
  | none => exact callFree_leaf
  | some c => exact h.children c (List.mem_of_getElem? hchild)

theorem callFree_exportList : (exportList start typeOnly).Yields CallFree := by
  refine .seq fun namesStart => .seq fun _ => ?_
  have hitems : (commaUntil "\x7d" exportItem).Yields fun items =>
      ∀ i ∈ items, CallFree i ∧ i.kind = .exportName :=
    .commaUntil fun s c i d h => ⟨callFree_exportItem s c i d h, exportName_of_exportItem s c i d h⟩
  refine hitems.bind fun items hitems => ?_
  have hnames : (Parser.finish namesStart .names items).Yields fun names =>
      CallFree names ∧ ∀ cs, (∀ n ∈ cs, CallFree n) → CallFree (names.withChildren cs) :=
    .finish fun span => ⟨callFree_of_children (by decide) fun i hi => (hitems i hi).1,
      fun cs hcs => callFree_of_children (by decide) hcs⟩
  refine hnames.bind fun names hnames => .seq fun found => ?_
  split
  · refine callFree_fromClause.bind fun ⟨source, attributes⟩ hx => .seq fun _ =>
      .finish fun span => callFree_of_children (by decide) ?_
    simp [hx.1, hx.2, hnames.1]
  · -- The names are those of variables here, whose places stay what they are.
    refine .seq fun s => ?_
    have hanew : ∀ marks span, CallFree (.mk .exportNames marks "" span
        [names.withChildren (items.map fun i => i.withChildren
          [.mk .reference [] (i.child 0).text (i.child 0).span [], i.child 1]), .absent,
          .absent]) := by
      refine fun marks span => callFree_of_children (by decide) ?_
      simp only [List.mem_cons, List.not_mem_nil, or_false, forall_eq_or_imp, forall_eq]
      refine ⟨hnames.2 _ ?_, callFree_leaf, callFree_leaf⟩
      simp only [List.mem_map, forall_exists_index, and_imp, forall_apply_eq_imp_iff₂]
      intro i hi
      refine callFree_renamed (hitems i hi).2 ?_
      simp [callFree_leaf, callFree_child (hitems i hi).1]
    dsimp only
    split
    · exact .refuse
    · exact .seq fun _ => .finish fun span => hanew _ span

instance : Moves source (exportList start typeOnly) := by
  unfold exportList
  dsimp only
  infer_instance

instance : Lays source [] (exportList start typeOnly) :=
  lays_of_callFree (by simpa [nodes] using callFree_exportList start typeOnly)

instance : Ends start (exportList start typeOnly) := by
  unfold exportList
  dsimp only
  infer_instance

instance : Strict source (exportList start typeOnly) := by
  unfold exportList
  dsimp only
  infer_instance

end

end ScriptLoader.Syntax.Grammar
