import ScriptLoader.Syntax.Reader

/-!
# Uses of variables

Which names are declared for each child of a node, and which variables are left to be declared
around a tree: those that are read or written at some place of it with no scope in between that
declares them.

* `Scope.inner`: the children of a node that use variables, with the names declared for them.
* `Scope.Uses`: a variable is used in a tree.
* `Scope.mem_free_iff`: the free variables of a tree are those that it uses.
* `Scope.own_references_iff`: the reader of this library knows a reference to a variable exactly if
  a statement uses it.
-/

namespace ScriptLoader.Syntax.Scope

open Program (boundNames)

/-- The children of a node that use variables, each with the names that the node declares for it: a
type and an assignment or export of types use none, and the name of a function is no use of it. -/
def inner : Node → List (List String × Node)
  | .mk .types _ _ _ _ => []
  | .mk .functionExpr _ _ _ [name, ps, body] =>
    [(boundNames name ++ boundNames ps, ps),
      (boundNames name ++ boundNames ps ++ declaredInBody body.children, body)]
  | .mk .functionDecl _ _ _ [_, ps, body] =>
    [(boundNames ps, ps), (boundNames ps ++ declaredInBody body.children, body)]
  | .mk .arrow marks _ _ [ps, body] =>
    [(boundNames ps, ps),
      (boundNames ps ++ (if marks.contains .concise then [] else declaredInBody body.children),
        body)]
  | .mk .classExpr _ _ _ (name :: superclass :: body :: decorators) =>
    (boundNames name, superclass) :: (boundNames name, body) :: decorators.map ([], ·)
  | .mk .classDecl _ _ _ (name :: superclass :: body :: decorators) =>
    (boundNames name, superclass) :: (boundNames name, body) :: decorators.map ([], ·)
  | .mk .block _ _ _ cs => cs.map (declaredIn cs, ·)
  | .mk .staticBlock _ _ _ cs => cs.map (declaredInBody cs, ·)
  | .mk .switchStmt _ _ _ (on :: cases) =>
    ([], on) :: cases.map (cases.flatMap (fun c => declaredIn (c.children.drop 1)), ·)
  | .mk .forStmt _ _ _ cs => cs.map ((cs.head?.map headNames).getD [], ·)
  | .mk .forIn _ _ _ cs => cs.map ((cs.head?.map headNames).getD [], ·)
  | .mk .forOf _ _ _ cs => cs.map ((cs.head?.map headNames).getD [], ·)
  | .mk .handler _ _ _ cs => cs.map (firstName cs, ·)
  | .mk .enumDecl _ _ _ cs => cs.map (memberNames (cs.drop 1), ·)
  | .mk .namespace _ _ _ cs => cs.map (declaredInBody (cs.drop 1), ·)
  | .mk .importEquals marks _ _ cs => if marks.contains .typeOnly then [] else cs.map ([], ·)
  | .mk .exportNames marks _ _ cs => if marks.contains .typeOnly then [] else cs.map ([], ·)
  | .mk .exportName marks _ _ cs => if marks.contains .typeOnly then [] else cs.map ([], ·)
  | .mk _ _ _ _ cs => cs.map ([], ·)

/-! ## Free variables -/

theorem mem_without {bound names : List String} {name : String} :
    name ∈ without bound names ↔ name ∈ names ∧ name ∉ bound := by
  simp [without]

theorem mem_freeAll {name : String} {ns : List Node} :
    name ∈ freeAll ns ↔ ∃ n ∈ ns, name ∈ free n := by
  induction ns with
  | nil => simp [freeAll]
  | cons n ns ih => simp [freeAll, ih]

/-- What is free in some child, and is not declared for it. -/
def FreeIn (name : String) (cs : List (List String × Node)) : Prop :=
  ∃ c ∈ cs, name ∉ c.1 ∧ name ∈ free c.2

theorem freeIn_nil (name : String) : ¬ FreeIn name [] := by simp [FreeIn]

theorem freeIn_cons {name : String} {c : List String × Node} {cs : List (List String × Node)} :
    FreeIn name (c :: cs) ↔ (name ∉ c.1 ∧ name ∈ free c.2) ∨ FreeIn name cs := by
  simp [FreeIn]

theorem freeIn_map {name : String} {bound : List String} {cs : List Node} :
    FreeIn name (cs.map (bound, ·)) ↔ name ∉ bound ∧ name ∈ freeAll cs := by
  simp only [FreeIn, List.mem_map, mem_freeAll]
  grind

/-- What is free in a node that is no reference is free in one of its children. -/
theorem mem_free {name : String} {n : Node} (h : n.kind ≠ .reference) :
    name ∈ free n ↔ FreeIn name (inner n) := by
  unfold free
  split
  case h_1 => exact absurd rfl h
  case h_17 | h_18 | h_19 =>
    simp only [inner]
    split <;> simp [freeIn_nil, freeIn_map]
  case h_20 => rw [inner, freeIn_map] <;> simp_all
  all_goals
    simp only [inner, freeIn_cons, freeIn_map, freeIn_nil, mem_without, List.mem_append]
    grind

theorem child_of_inner {n c : Node} {bound : List String} (h : (bound, c) ∈ inner n) :
    c ∈ n.children := by
  unfold inner at h
  split at h
  all_goals
    simp only [Node.children]
    grind

/-- A variable is read or written at a place of a tree, and no scope around it declares it. -/
inductive Uses (name : String) : Node → Prop where
  | reference (marks : List Mark) (span : Span) (cs : List Node) :
    Uses name (.mk .reference marks name span cs)
  | inside {n c : Node} {bound : List String} (hn : n.kind ≠ .reference)
    (hc : (bound, c) ∈ inner n) (hfree : name ∉ bound) (huse : Uses name c) : Uses name n

/-- The free variables of a tree are those that it uses. -/
theorem mem_free_iff (name : String) (n : Node) : name ∈ free n ↔ Uses name n := by
  constructor
  · intro h
    match n with
    | .mk kind marks text span cs =>
      by_cases hkind : kind = .reference
      · subst hkind
        rw [free, List.mem_singleton] at h
        exact h ▸ .reference marks span cs
      · obtain ⟨⟨bound, c⟩, hc, hfree, huse⟩ :=
          (mem_free (n := .mk kind marks text span cs) hkind).1 h
        have hmem : c ∈ cs := child_of_inner hc
        exact .inside hkind hc hfree ((mem_free_iff name c).1 huse)
  · intro h
    induction h with
    | reference marks span cs => exact List.mem_singleton_self name
    | inside hn hc hfree _ ih => exact (mem_free hn).2 ⟨_, hc, hfree, ih⟩

-- The cases of a switch declare nothing for what it switches on.
example : free (.mk .switchStmt [] "" ⟨0, 0⟩ [.mk .reference [] "a" ⟨0, 0⟩ [],
    .mk .switchCase [] "" ⟨0, 0⟩ [.absent, .mk .variableDecl [] "let" ⟨0, 0⟩
      [.mk .declarator [] "" ⟨0, 0⟩ [.mk .binding [] "a" ⟨0, 0⟩ [], .absent]]]]) = ["a"] := by
  decide

theorem own_references_iff {p : Program} {b : Node} {rs : List Reference}
    (h : Reader.own.references p b = some rs) :
    (∃ r ∈ rs, r.isUse = true) ↔ ∃ n ∈ p.statements, Uses b.text n := by
  cases h
  simp only [← mem_free_iff, ← mem_freeAll, List.mem_map, List.mem_filter, decide_eq_true_eq]
  constructor
  · rintro ⟨r, ⟨name, ⟨hmem, rfl⟩, -⟩, -⟩
    exact hmem
  · exact fun hmem => ⟨⟨true, true⟩, ⟨b.text, ⟨hmem, rfl⟩, rfl⟩, rfl⟩

end ScriptLoader.Syntax.Scope
