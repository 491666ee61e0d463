import ScriptLoader.Proofs.Places.Modules

/-!
# Statements in a source

A statement is a tree from its first token to its last one, with a span around all calls in it.
-/

namespace ScriptLoader.Syntax.Grammar

open Syntax.Parser Compile.Linked

set_option synthInstance.maxSize 1000000

variable {source : List Char} (g : Grammar) [hg : Placed source g]

/-! ## Variables -/

instance : Lays source [] (variableType g) := by
  unfold variableType
  dsimp only
  infer_instance

instance (kind : String) (bare : Bool) : Lays source [] (declarator g kind bare) := by
  unfold declarator
  dsimp only
  infer_instance

instance (start : Nat) (kind : String) (bare : Bool) :
    Lays source [] (variablesRest g start kind bare) := by
  unfold variablesRest
  infer_instance

instance : Still variablesAt := by
  unfold variablesAt
  dsimp only
  infer_instance

instance (kind : String) : Moves source (skipVariablesWord kind) := by
  unfold skipVariablesWord
  infer_instance

/-! ## Bodies of control statements -/

instance : Lays source [] (body g) := by
  unfold body
  dsimp only
  infer_instance

instance : Lays source [] (parenthesized g) := by
  unfold parenthesized
  infer_instance

section

variable (start : Nat) (target : Node) (waits : Bool)

instance : Hands source (overRest g start target waits) [target] := by
  have hlays : Lays source ([] ++ nodes target) (overRest g start target waits) := by
    unfold overRest
    dsimp only
    infer_instance
  exact ⟨hlays⟩

instance : Ends start (overRest g start target waits) := by
  unfold overRest
  dsimp only
  infer_instance

instance : Hands source (countingRest g start target) [target] := by
  have hlays : Lays source ([] ++ nodes target) (countingRest g start target) := by
    unfold countingRest
    dsimp only
    infer_instance
  exact ⟨hlays⟩

instance : Ends start (countingRest g start target) := by
  unfold countingRest
  dsimp only
  infer_instance

end

/-- A loop, from its word on. -/
theorem runs_forStatement (c : Cursor) : Runs source (forStatement g) c fun n d =>
    Formed source c.span.start d.lastStop n ∧ n.kind.Plain := by
  unfold forStatement
  refine .position <| (Runs.expectWord "for").bind fun _ d hlt _ hst _ => .still fun s => ?_
  extract_lets counted loop
  have hloop : ∀ waits e, d.lastStop ≤ e.lastStop → d.span.start ≤ e.span.start →
      Runs source (loop waits) e fun n f =>
        Formed source c.span.start f.lastStop n ∧ n.kind.Plain := by
    intro waits e hle₁ hst₁
    unfold loop
    refine .seq fun _ e₁ hle₂ hst₂ _ => .still fun counting => ?_
    dsimp only
    have hcounted : Runs source (counted ()) e₁ fun n f =>
        Formed source c.span.start f.lastStop n ∧ n.kind.Plain :=
      .completed (p := countingRest g _ _) (by omega) (by omega) .nil
    refine .ite (.ite .refuse hcounted) ?_
    refine .position <| .still fun kind => .ite ?_ ?_
    · refine .seq fun _ e₂ hle₃ hst₃ _ => .bind Runs.laid fun head e₃ hhead hle₄ hst₄ _ =>
        .still fun ofAt => .still fun inAt => ?_
      have hhead' : Laid source c.span.start e₃.lastStop ([] ++ nodes head) :=
        hhead.mono (by omega) (Nat.le_refl _)
      refine .ite ?_ ?_
      · split
        · exact .ite .refuse (.completed (by omega) (by omega) hhead')
        · exact .refuse
      · refine .still fun s => .ite .refuse <| .ite .refuse ?_
        exact .completed (by omega) (by omega) hhead'
    · refine .bind (Spans.runs _) fun head e₃ hhead hle₄ hst₄ _ =>
        .still fun ofAt => .still fun inAt => ?_
      have hhead' : Laid source c.span.start e₃.lastStop ([] ++ nodes head) :=
        hhead.between.mono (by omega) (Nat.le_refl _)
      refine .ite ?_ (.ite .refuse (.completed (by omega) (by omega) hhead'))
      split
      · next target htarget =>
        have htarget' : Laid source c.span.start e₃.lastStop ([] ++ nodes target) :=
          (sameCalls_targets.1 head target htarget).laid hhead'
        exact .completed (by omega) (by omega) htarget'
      · exact .refuse
  clear_value loop
  exact .ite (.seq fun waits e hle hst _ => hloop waits e hle hst)
    (.handed (hloop false d (Nat.le_refl _) (Nat.le_refl _)))

instance : Lays source [] (switchCase g) := by
  unfold switchCase
  dsimp only
  infer_instance

instance : Lays source [] (caught g) := by
  unfold caught
  infer_instance

/-- A guarded block, from its word on. -/
theorem runs_tryStatement (c : Cursor) : Runs source (tryStatement g) c fun n d =>
    Formed source c.span.start d.lastStop n ∧ n.kind.Plain := by
  unfold tryStatement
  dsimp only
  exact .position <| .formed (Nat.le_refl _) .nil

/-- A jump, at whose word the cursor is. -/
theorem runs_jump (kind : Kind) [Holds kind.Plain] {c : Cursor} (hknown : c.Known) :
    Runs source (jump kind) c fun n d =>
      Formed source c.span.start d.lastStop n ∧ n.kind.Plain := by
  unfold jump
  refine .position <| .behind hknown fun d hlt hbehind => ?_
  dsimp only
  exact .completed hlt (by omega) .nil

/-! ## Declarations of types -/

section

variable (start : Nat) (marks : List Mark)

instance : Lays source [] (typeAliasDeclaration g start) := by
  unfold typeAliasDeclaration
  dsimp only
  infer_instance

instance : Ends start (typeAliasDeclaration g start) := by
  unfold typeAliasDeclaration
  dsimp only
  infer_instance

instance : Strict source (typeAliasDeclaration g start) := by
  unfold typeAliasDeclaration
  dsimp only
  infer_instance

instance : Lays source [] (interfaceDeclaration g start) := by
  unfold interfaceDeclaration
  dsimp only
  infer_instance

instance : Ends start (interfaceDeclaration g start) := by
  unfold interfaceDeclaration
  dsimp only
  infer_instance

instance : Strict source (interfaceDeclaration g start) := by
  unfold interfaceDeclaration
  dsimp only
  infer_instance

instance : Lays source [] (enumMember_ g) := by
  unfold enumMember_
  dsimp only
  infer_instance

instance : Lays source [] (enumDeclaration g start marks) := by
  unfold enumDeclaration
  infer_instance

instance : Ends start (enumDeclaration g start marks) := by
  unfold enumDeclaration
  infer_instance

instance : Strict source (enumDeclaration g start marks) := by
  unfold enumDeclaration
  infer_instance

instance : Lays source [] (namespaceBody g) := by
  unfold namespaceBody
  infer_instance

instance : Strict source (namespaceBody g) := by
  unfold namespaceBody
  infer_instance

end

/-- A dotted name is a chain of namespaces, with the calls of what the last of them holds. -/
theorem sameCalls_namespaces (stop start : Nat) {outer : List (Nat × Node)} {items ns : List Node}
    (hnames : ∀ x ∈ outer, CallFree x.2) (h : SameCalls ns items) :
    SameCalls (outer.foldl (fun (inner : List Node) (x : Nat × Node) =>
      let span : Span := ⟨(inner.head?.map (·.span.start)).getD start, stop⟩
      [x.2, .mk .exportDecl [] "" span [.mk .namespace [] "" span inner]]) ns) items := by
  induction outer generalizing ns with
  | nil => exact h
  | cons x outer ih =>
    obtain ⟨hx, houter⟩ := List.forall_mem_cons.1 hnames
    refine ih houter ?_
    have hname : SameCalls [x.2] [] := sameCalls_of_callFree (by simpa using hx)
    refine (hname.append (.refl _)).trans ?_
    exact (sameCalls_node (by decide)).trans ((sameCalls_node (by decide)).trans h)

theorem Runs.of_yields {α : Type} {P : α → Prop} {p : Parser α} {c : Cursor} [Moves source p]
    (h : p.Yields P) : Runs source p c fun a _ => P a := fun s a d hs hc hr =>
  let ⟨hd, hle, hst, _⟩ := Moves.runs (p := p) c s a d hs hc hr
  ⟨hd, hle, hst, h s c a d hr⟩

/-- A namespace, at whose word the cursor is. -/
theorem runs_namespaceDeclaration {start : Nat} {marks : List Mark} {c : Cursor}
    (hknown : c.Known) (hstart : start ≤ c.span.start) :
    Runs source (namespaceDeclaration g start marks) c fun n d =>
      Formed source start d.lastStop n ∧ n.kind.Plain := by
  unfold namespaceDeclaration
  refine .behind hknown fun d hlt hbehind => ?_
  let name : Parser (Nat × Node) := do
    let start ← position
    let name ← variable_ .binding
    return (start, name)
  have hname : name.Yields fun x => CallFree x.2 :=
    .seq fun start => (callFree_variable .binding).bind fun name hname => .pure hname
  have hnames : (separated "." name).Yields fun names => ∀ x ∈ names, CallFree x.2 := by
    refine hname.bind fun x hx =>
      .loop (P := fun acc : List (Nat × Node) => ∀ x ∈ acc, CallFree x.2)
        (by simpa using hx) fun acc hacc => .seq fun more => ?_
    split
    · exact hname.bind fun x hx => .pure (List.forall_mem_cons.2 ⟨hx, hacc⟩)
    · exact .pure fun x hx => hacc x (List.mem_reverse.1 hx)
  refine (Runs.of_yields hnames).bind fun names a hnames hle₁ hst₁ _ => ?_
  refine .bind Runs.laid fun items e hitems hle₂ hst₂ _ => .cursor ?_
  dsimp only
  split
  · exact .refuse
  · next place last outer hreverse =>
    have hfree : ∀ y ∈ names.reverse, CallFree y.2 := fun y hy => hnames y (List.mem_reverse.1 hy)
    rw [hreverse] at hfree
    refine .pure ⟨.node trivial (Nat.le_refl _) ?_ (Nat.le_refl _) ?_, trivial⟩
    · dsimp only
      omega
    · have houter : ∀ y ∈ outer, CallFree y.2 := fun y hy => hfree y (List.mem_cons_of_mem _ hy)
      have hbelow := sameCalls_namespaces e.lastStop start houter (.refl (last :: items))
      have hlast : SameCalls [last] [] :=
        sameCalls_of_callFree (by simpa using hfree (place, last) List.mem_cons_self)
      refine hbelow.laid ((hlast.append (.refl items)).laid ?_)
      exact hitems.mono (by dsimp only; omega) (Nat.le_refl _)

/-- A declaration of the typed dialect begins with a word. -/
theorem runs_typedDeclarationAt (c : Cursor) : Runs source typedDeclarationAt c fun found d =>
    d = c ∧ (found.isSome → c.Known) := by
  unfold typedDeclarationAt
  refine .cursor <| .still fun s => .ite (.pure ⟨rfl, nofun⟩) ?_
  dsimp only
  split
  · next w htoken =>
    have hknown : c.Known := by simp [Cursor.Known, htoken]
    have hword : ∀ found : Option TypedDeclaration,
        Runs source (Pure.pure found) c fun found d => d = c ∧ (found.isSome → c.Known) :=
      fun found => .pure ⟨rfl, fun _ => hknown⟩
    refine .ite (hword _) (.ite (hword _) (.still fun n => ?_))
    split <;> exact hword _
  · exact .pure ⟨rfl, nofun⟩

/-- A declaration of the typed dialect, at whose word the cursor is. -/
theorem runs_typedDeclaration {start : Nat} (t : TypedDeclaration) {c : Cursor}
    (hknown : c.Known) (hstart : start ≤ c.span.start) :
    Runs source (typedDeclaration g start t) c fun n d =>
      Formed source start d.lastStop n ∧ n.kind.Plain := by
  have hambient : Runs source (ambientModuleDeclaration g start) c fun n d =>
      Formed source start d.lastStop n ∧ n.kind.Plain := by
    unfold ambientModuleDeclaration
    refine .behind hknown fun d hlt hbehind => ?_
    dsimp only
    exact .completed (by omega) (by omega) .nil
  unfold typedDeclaration
  split
  · exact .formed hstart .nil
  · exact .formed hstart .nil
  · exact .formed hstart .nil
  · exact .formed hstart .nil
  · exact runs_namespaceDeclaration g hknown hstart
  · exact hambient
  · exact hambient
  · exact .formed hstart .nil
  · refine .behind hknown fun d hlt hbehind => ?_
    refine ((Placed.statement d).within _).bind fun n e ⟨hn, hplain⟩ _ _ _ => .pure ?_
    obtain ⟨hmarked, hplain⟩ :=
      (hn.mono (show start ≤ _ by omega) (Nat.le_refl _)).withMark hplain .declared
    refine hmarked.withSpan hplain (Nat.le_refl _) hmarked.starts (Nat.le_of_eq ?_) hn.stops
    cases n
    rfl

/-! ## Exports -/

instance (kind : String) (bare : Bool) : Strict source (declarator g kind bare) := by
  unfold declarator
  dsimp only
  infer_instance

section

variable (start : Nat) (kind : String) (bare : Bool)

instance : Ends start (variablesRest g start kind bare) := by
  unfold variablesRest
  infer_instance

instance : Strict source (variablesRest g start kind bare) := by
  unfold variablesRest
  infer_instance

end

/-- A declaration of variables with its words, up to the end of the statement. -/
theorem runs_variables {start : Nat} {kind : String} {p : Parser Node} [Lays source [] p]
    [Ends start p] [Strict source p] {c : Cursor} (hstart : start ≤ c.span.start) :
    Runs source (do
      skipVariablesWord kind
      let v ← p
      endStatement
      return v.withSpan ⟨start, (← cursor).lastStop⟩) c fun n d =>
        Formed source start d.lastStop n ∧ n.kind.Plain := by
  refine .seq fun _ d _ hst _ => ?_
  refine (Runs.formed (show start ≤ _ by omega) .nil).bind
    fun v e ⟨hv, hplain⟩ _ _ _ => .seq fun _ e' hle _ _ => .cursor <| .pure ?_
  exact (hv.mono (Nat.le_refl _) hle).withSpan hplain (Nat.le_refl _) hv.starts
    (Nat.le_trans hv.stops hle) (Nat.le_refl _)

/-- A declaration behind what decorates it. -/
theorem runs_declaration {lo start : Nat} {decorated : List Node} {c : Cursor} (hlo : lo ≤ start)
    (hstart : start ≤ c.span.start) (hdecorated : Laid source lo c.lastStop decorated) :
    Runs source (declaration g start decorated) c fun n d => Laid source lo d.lastStop [n] := by
  have hlaid : Laid source lo c.lastStop ([] ++ nodes decorated) := hdecorated
  unfold declaration
  refine .cursor <| .still fun n => .still fun kind => ?_
  refine (runs_typedDeclarationAt c).bind fun found d ⟨hd, hknown⟩ _ _ _ => ?_
  subst hd
  split
  · exact .laying (by omega) hlaid
  · next t _ _ =>
    refine (runs_typedDeclaration g t (hknown rfl) hstart).mono fun n d h _ _ _ => ?_
    exact h.1.between.mono hlo (Nat.le_refl _)
  · refine .ite ((runs_variables hstart).mono fun n d h _ _ _ => ?_) ?_
    · exact h.1.between.mono hlo (Nat.le_refl _)
    · have hfunction : Lays source ([] ++ nodes decorated)
          (functionRest g start false true .functionDecl) := .dropping _
      have hasync : Lays source ([] ++ nodes decorated)
          (functionRest g start true true .functionDecl) := .dropping _
      exact .laying (by omega) hlaid

instance (decorated : List Node) : Hands source (defaultRest g decorated) decorated := by
  have hfunction start async before :
      Lays source before (functionRest g start async false .functionDecl) := .dropping before
  have hinterface start before : Lays source before (interfaceDeclaration g start) :=
    .dropping before
  have hlays : Lays source ([] ++ nodes decorated) (defaultRest g decorated) := by
    unfold defaultRest
    dsimp only
    infer_instance
  exact ⟨hlays⟩

/-- An export, from its word on, behind what decorates it. -/
theorem runs_exportDeclaration {start : Nat} {decorated : List Node} {c : Cursor}
    (hstart : start ≤ c.span.start) (hdecorated : Laid source start c.lastStop decorated) :
    Runs source (exportDeclaration g start decorated) c fun n d =>
      Formed source start d.lastStop n ∧ n.kind.Plain := by
  unfold exportDeclaration
  refine (Runs.expectWord "export").bind fun _ d hlt hle _ hbehind => .cursor <| .still fun s => ?_
  have hbefore : Laid source start d.lastStop ([] ++ nodes decorated) :=
    hdecorated.mono (Nat.le_refl _) hle
  have hlt : start < d.lastStop := by omega
  have hstart : start ≤ d.span.start := by omega
  dsimp only
  split
  · exact .completed hlt hstart .nil
  · exact .completed hlt hstart .nil
  · exact .ite .refuse (.completed hlt hstart .nil)
  · refine .still fun n => .ite (.completed hlt hstart hbefore) ?_
    refine .ite (.completed hlt hstart .nil) ?_
    refine .ite (.completed hlt hstart .nil) ?_
    refine .ite (.completed hlt hstart .nil) ?_
    refine .position <| .bind Runs.laid fun more e hmore hle₁ hst₁ _ => ?_
    have hboth : Laid source start e.lastStop (decorated ++ more) :=
      hbefore.append hmore hstart hbehind hle₁
    refine (runs_declaration g hstart hst₁ hboth).bind fun n f hn hle₂ _ _ => ?_
    have hwhole : Laid source start f.lastStop ([] ++ nodes n) := hn
    exact .completed (by omega) (by omega) hwhole

/-! ## Statements -/

theorem runs_expressionStatement (c : Cursor) : Runs source (expressionStatement g) c fun n d =>
    Formed source c.span.start d.lastStop n ∧ n.kind.Plain := by
  unfold expressionStatement
  exact .position <| .formed (Nat.le_refl _) .nil

/-- A statement with a keyword, at which the cursor is. -/
theorem runs_keywordStatement (w : String) {c : Cursor} (hknown : c.Known) :
    Runs source (keywordStatement g w) c fun found d =>
      ∀ n ∈ found, Formed source c.span.start d.lastStop n ∧ n.kind.Plain := by
  have hwhole : ∀ {p : Parser Node}, Runs source p c (fun n d =>
      Formed source c.span.start d.lastStop n ∧ n.kind.Plain) →
        Runs source (do return some (← p)) c fun found d =>
          ∀ n ∈ found, Formed source c.span.start d.lastStop n ∧ n.kind.Plain :=
    fun h => h.bind fun _ _ hn _ _ _ => .pure <| by rintro _ ⟨⟩; exact hn
  -- The word is read, and a node from its place on is what the rest answers.
  have hrest : ∀ {f : Unit → Parser (Option Node)} [Lays source [] (f ())]
      [Ends c.span.start (f ())], Runs source (advance >>= f) c fun found d =>
        ∀ n ∈ found, Formed source c.span.start d.lastStop n ∧ n.kind.Plain := by
    intro f _ _
    refine .behind hknown fun d hlt hbehind => ?_
    refine (Runs.ended hlt (by omega) .nil).mono fun found _ h _ _ _ => ?_
    rintro n ⟨⟩
    exact h n rfl
  unfold keywordStatement
  refine .position ?_
  dsimp only
  split
  · exact hrest
  · exact hwhole (runs_forStatement g c)
  · exact hrest
  · exact hrest
  · exact hwhole (runs_jump _ hknown)
  · exact hwhole (runs_jump _ hknown)
  · exact .still fun s => .ite .refuse hrest
  · exact hrest
  · exact hrest
  · exact hrest
  · exact hwhole (runs_tryStatement g c)
  · exact hrest
  · exact hwhole (.formed (Nat.le_refl _) .nil)
  · exact hwhole (.formed (Nat.le_refl _) .nil)
  · exact hwhole (runs_exportDeclaration g (Nat.le_refl _) .nil)
  · refine .still fun n => .ite (.pure ?_) (hwhole (runs_importDeclaration c))
    rintro _ ⟨⟩
  · refine .pure ?_
    rintro _ ⟨⟩

theorem runs_statementRule (c : Cursor) : Runs source (statementRule g) c fun n d =>
    Formed source c.span.start d.lastStop n ∧ n.kind.Plain := by
  unfold statementRule
  refine .position <| .cursor ?_
  split
  · unfold block
    exact .position <| .formed (Nat.le_refl _) .nil
  · next htoken =>
    refine .position <| .behind (by simp [Cursor.Known, htoken]) fun d hlt hbehind => ?_
    exact .completed hlt (by omega) .nil
  · refine .bind Runs.laid fun decorated d hdecorated hle hst _ => ?_
    have hbefore : Laid source c.span.start d.lastStop ([] ++ nodes decorated) := hdecorated
    refine .still fun exported => .ite (runs_exportDeclaration g hst hdecorated) ?_
    exact .still fun found => .ite (.formed hst hbefore) (.formed hst hbefore)
  · next w htoken =>
    have hknown : c.Known := by simp [Cursor.Known, htoken]
    refine .still fun kind => .ite (runs_variables (Nat.le_refl _)) ?_
    refine (runs_typedDeclarationAt c).bind fun found d ⟨hd, _⟩ _ _ _ => ?_
    subst hd
    split
    · exact runs_typedDeclaration g _ hknown (Nat.le_refl _)
    · refine (runs_keywordStatement g w hknown).bind fun found e hfound _ hst _ => ?_
      split
      · exact .pure (hfound _ rfl)
      · refine .still fun n => .ite (.formed hst .nil) ?_
        exact (runs_expressionStatement g e).mono fun n f h _ _ _ =>
          ⟨h.1.mono hst (Nat.le_refl _), h.2⟩
  · exact runs_expressionStatement g c

end ScriptLoader.Syntax.Grammar
