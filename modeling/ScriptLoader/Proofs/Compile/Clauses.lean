import ScriptLoader.Compile.Linked
import ScriptLoader.Proofs.Syntax.Yields

/-!
# Declarations of imports hold no calls

What linking replaces at the top of a program are imports, and exports with a source. They are made
of names and strings, so that no call that loads a module stands inside of one.

* `Linked.Plain`: a declaration that is replaced holds no calls. The grammar yields no other
  statements (`Grammar.clausal_plain`), so that a program has none (`Linked.plain_of_read`).
-/

namespace ScriptLoader.Compile.Linked

open Syntax

/-! ## Declarations that are replaced -/

/-- Whether linking replaces a statement at the top. -/
def isReplaced : Node → Bool
  | .mk .importDecl _ _ _ [_, _, _] => true
  | .mk .exportNames _ _ _ [_, source, _] => !source.isAbsent
  | .mk .exportAll _ _ _ [_, _, _] => true
  | _ => false

/-- No call that loads a module stands in the tree. -/
def CallFree (n : Node) : Prop := sites n = []

/-- A declaration that is replaced holds no calls. -/
def Plain (n : Node) : Prop := isReplaced n = true → CallFree n

theorem callFree_leaf {kind : Kind} {marks : List Mark} {text : String} {span : Span} :
    CallFree (.mk kind marks text span []) := by
  simp [CallFree, sites, sitesAll]

/-- Marks, text and span of a node do not matter. -/
theorem callFree_congr {kind : Kind} {marks marks' : List Mark} {text text' : String}
    {span span' : Span} {cs : List Node} :
    CallFree (.mk kind marks text span cs) ↔ CallFree (.mk kind marks' text' span' cs) := by
  unfold CallFree
  by_cases hcall : ∃ argument options, kind = .importCall ∧ cs = argument :: options
  · obtain ⟨argument, options, rfl, rfl⟩ := hcall
    simp [sites]
  · have hno : ∀ argument options, kind = .importCall → cs ≠ argument :: options :=
      fun argument options hk hc => hcall ⟨argument, options, hk, hc⟩
    rw [sites, sites]
    · exact hno
    · exact hno

theorem callFree_withMark {n : Node} (mark : Mark) (h : CallFree n) :
    CallFree (n.withMark mark) := by
  cases n
  exact callFree_congr.1 h

theorem sitesAll_eq_nil_iff {cs : List Node} : sitesAll cs = [] ↔ ∀ c ∈ cs, CallFree c := by
  induction cs with
  | nil => simp [sitesAll]
  | cons c cs ih => simp [sitesAll, ih, CallFree]

/-- A tree that is no call holds none if its children do not. -/
theorem callFree_of_children {kind : Kind} {marks : List Mark} {text : String} {span : Span}
    {cs : List Node} (hkind : kind ≠ .importCall) (h : ∀ c ∈ cs, CallFree c) :
    CallFree (.mk kind marks text span cs) := by
  rw [CallFree, sites, sitesAll_eq_nil_iff]
  · exact h
  · exact fun _ _ hcall => absurd hcall hkind

theorem plain_of_kind {kind : Kind} {marks : List Mark} {text : String} {span : Span}
    {cs : List Node} (h : Kind.Common kind) : Plain (.mk kind marks text span cs) := by
  intro hr
  unfold isReplaced at hr
  split at hr <;> simp_all [Kind.Common]

theorem plain_congr {kind : Kind} {marks marks' : List Mark} {text text' : String}
    {span span' : Span} {cs : List Node} (h : Plain (.mk kind marks text span cs)) :
    Plain (.mk kind marks' text' span' cs) := by
  intro hr
  refine callFree_congr.1 (h ?_)
  unfold isReplaced at hr ⊢
  split at hr <;> simp_all

end ScriptLoader.Compile.Linked

namespace ScriptLoader.Syntax.Grammar

open Compile.Linked Syntax.Parser

/-! ## Names and strings -/

theorem callFree_stringLiteral : stringLiteral.Yields CallFree := by
  refine .seq fun c => ?_
  split
  · exact .leaf fun _ => callFree_leaf
  · exact .refuse

theorem callFree_word : word.Yields CallFree := by
  refine .seq fun c => ?_
  split
  · exact .leaf fun _ => callFree_leaf
  · exact .refuse

theorem callFree_variable (kind : Kind) : (variable_ kind).Yields CallFree := by
  refine .seq fun c => ?_
  split
  · refine .seq fun s => ?_
    split
    · exact .leaf fun _ => callFree_leaf
    · exact .refuse
  · exact .refuse

theorem callFree_exportName : exportName_.Yields CallFree := by
  refine .seq fun c => ?_
  split
  · exact callFree_stringLiteral.bind fun n hn => .pure (callFree_withMark _ hn)
  · exact callFree_word

theorem callFree_specifier : specifier.Yields fun x => CallFree x.2.1 ∧ CallFree x.2.2 := by
  refine callFree_exportName.bind fun first hfirst => .seq fun c => ?_
  split
  · refine callFree_word.bind fun second hsecond => .seq fun c => ?_
    split
    · refine callFree_word.bind fun third hthird => .seq fun c => ?_
      split
      · exact callFree_exportName.bind fun last hlast => .pure ⟨hsecond, hlast⟩
      · exact .pure ⟨hfirst, hthird⟩
    · split
      · exact callFree_exportName.bind fun last hlast => .pure ⟨hfirst, hlast⟩
      · exact .pure ⟨hsecond, hsecond⟩
  · have hrest : ∀ typeOnly name, CallFree name →
        (do if ← skipWord "as" then return (typeOnly, name, ← exportName_)
            else return (typeOnly, name, name)).Yields
          fun x : Bool × Node × Node => CallFree x.2.1 ∧ CallFree x.2.2 := by
      refine fun typeOnly name hname => .seq fun found => ?_
      split
      · exact callFree_exportName.bind fun last hlast => .pure ⟨hname, hlast⟩
      · exact .pure ⟨hname, hname⟩
    dsimp only
    split
    · exact callFree_exportName.bind fun name hname => hrest _ name hname
    · exact Yields.bind (.pure hfirst) fun name hname => hrest _ name hname

/-! ## Clauses -/

theorem callFree_importItem : importItem.Yields CallFree := by
  refine .seq fun start => callFree_specifier.bind fun ⟨typeOnly, imported, local_⟩ hx =>
    .seq fun s => ?_
  have hitem : ∀ span marks, CallFree (.mk .importName marks "" span
      [imported, .mk .binding [] local_.text local_.span []]) := by
    refine fun span marks => callFree_of_children (by decide) ?_
    simp [hx.1, callFree_leaf]
  dsimp only
  split
  · exact .seq fun _ => by
      split
      · exact .seq fun _ => .finish fun span => hitem span _
      · exact .finish fun span => hitem span _
  · split
    · exact .seq fun _ => .finish fun span => hitem span _
    · exact .finish fun span => hitem span _

theorem callFree_exportItem : exportItem.Yields CallFree := by
  refine .seq fun start => callFree_specifier.bind fun ⟨typeOnly, local_, exported⟩ hx =>
    .seq fun s => ?_
  have hitem : ∀ span marks, CallFree (.mk .exportName marks "" span [local_, exported]) := by
    refine fun span marks => callFree_of_children (by decide) ?_
    simp [hx.1, hx.2]
  dsimp only
  split
  · exact .seq fun _ => .finish fun span => hitem span _
  · exact .finish fun span => hitem span _

theorem callFree_attributesClause : attributesClause.Yields CallFree := by
  refine .seq fun c => ?_
  split
  · refine .seq fun start => .seq fun _ => .seq fun _ => ?_
    have hitem : (do
        let start ← position
        let key ← exportName_
        expect ":"
        let value ← stringLiteral
        Parser.finish start .property [key, value] : Parser Node).Yields CallFree := by
      refine .seq fun start => callFree_exportName.bind fun key hkey => .seq fun _ =>
        callFree_stringLiteral.bind fun value hvalue => .finish fun span => ?_
      refine callFree_of_children (by decide) ?_
      simp [hkey, hvalue]
    refine (Yields.commaUntil hitem).bind fun items hitems => .finish fun span => ?_
    exact callFree_of_children (by decide) hitems
  · exact .pure callFree_leaf

theorem callFree_fromClause : fromClause.Yields fun x => CallFree x.1 ∧ CallFree x.2 :=
  .seq fun _ => callFree_stringLiteral.bind fun _ hs => callFree_attributesClause.bind fun _ ha =>
    .pure ⟨hs, ha⟩

theorem callFree_importClause : importClause.Yields fun items => ∀ n ∈ items, CallFree n := by
  have hnamed : (do
      let start ← position
      if ← skip "*" then
        expectWord "as"
        let b ← variable_ .binding
        Parser.finish start .importNamespace [b]
      else
        expect "\x7b"
        let items ← commaUntil "\x7d" importItem
        Parser.finish start .names items : Parser Node).Yields
        fun n => ∀ m ∈ if n.is .names then n.children else [n], CallFree m := by
    refine .seq fun start => .seq fun found => ?_
    split
    · refine .seq fun _ => (callFree_variable .binding).bind fun b hb => .finish fun span => ?_
      have hspace : CallFree (.mk .importNamespace [] "" span [b]) :=
        callFree_of_children (by decide) (by simpa using hb)
      simpa [Node.is, Node.kind] using hspace
    · refine .seq fun _ => (Yields.commaUntil callFree_importItem).bind fun items hitems =>
        .finish fun span => ?_
      simpa [Node.is, Node.kind, Node.children] using hitems
  refine .seq fun c => ?_
  split
  · exact hnamed.bind fun n hn => .pure hn
  · refine .seq fun start => (callFree_variable .binding).bind fun b hb => ?_
    refine Yields.bind (P := CallFree) (.finish fun span => ?_) fun d hd => .seq fun found => ?_
    · exact callFree_of_children (by decide) (by simpa using hb)
    · split
      · exact hnamed.bind fun n hn => .pure (List.forall_mem_cons.2 ⟨hd, hn⟩)
      · exact .pure (by simpa using hd)

/-! ## Declarations -/

theorem plain_importEqualsRest (start : Nat) (name : Node) (typeOnly : Bool) :
    (importEqualsRest start name typeOnly).Yields Plain := by
  refine .seq fun _ => .seq fun n => .seq fun found => ?_
  split
  · exact .seq fun _ => .seq fun _ => .seq fun _ => .seq fun _ => .seq fun _ =>
      .finish fun _ => plain_of_kind (by decide)
  · exact .seq fun _ => .seq fun _ => .finish fun _ => plain_of_kind (by decide)

/-- The names of an import declaration, its source and its attributes. -/
theorem plain_importRest (start : Nat) (phase : String) (marks : List Mark) :
    (do
      let namesStart ← position
      let items ← importClause
      let names ← Parser.finish namesStart .names items
      let (source, attributes) ← fromClause
      endStatement
      Parser.finish start .importDecl [source, names, attributes] phase marks :
        Parser Node).Yields Plain := by
  refine .seq fun namesStart => callFree_importClause.bind fun items hitems => ?_
  have hnames : (Parser.finish namesStart .names items).Yields CallFree :=
    .finish fun span => callFree_of_children (by decide) hitems
  refine hnames.bind fun names hnames => callFree_fromClause.bind fun ⟨source, attributes⟩ hx =>
    .seq fun _ => .finish fun span _ => ?_
  refine callFree_of_children (by decide) ?_
  simp [hx.1, hx.2, hnames]

theorem plain_importDeclaration : importDeclaration.Yields Plain := by
  refine .seq fun start => .seq fun _ => .seq fun c => ?_
  split
  · refine callFree_stringLiteral.bind fun source hs => callFree_attributesClause.bind
      fun attributes ha => .seq fun _ => .finish fun span _ => ?_
    refine callFree_of_children (by decide) ?_
    simp [hs, ha, Node.absent, callFree_leaf]
  · repeat' first
      | exact plain_importRest _ _ _
      | exact plain_importEqualsRest _ _ _
      | refine .seq fun _ => ?_
      | split
      | dsimp only

theorem plain_exportList (start : Nat) (typeOnly : Bool) :
    (exportList start typeOnly).Yields Plain := by
  refine .seq fun namesStart => .seq fun _ => ?_
  refine (Yields.commaUntil callFree_exportItem).bind fun items hitems => ?_
  have hnames : (Parser.finish namesStart .names items).Yields CallFree :=
    .finish fun span => callFree_of_children (by decide) hitems
  refine hnames.bind fun names hnames => .seq fun found => ?_
  split
  · refine callFree_fromClause.bind fun ⟨source, attributes⟩ hx => .seq fun _ =>
      .finish fun span _ => ?_
    refine callFree_of_children (by decide) ?_
    simp [hx.1, hx.2, hnames]
  · have hlocal : ∀ marks span names, Plain (.mk .exportNames marks "" span
        [names, .absent, .absent]) := by
      intro marks span names hr
      cases hr
    repeat' first
      | exact .finish fun span => hlocal _ span _
      | exact .refuse
      | refine .seq fun _ => ?_
      | split

theorem plain_exportStar (start : Nat) (typeOnly : Bool) :
    (exportStar start typeOnly).Yields Plain := by
  have hrest : ∀ exported, CallFree exported → (do
      let (source, attributes) ← fromClause
      endStatement
      Parser.finish start .exportAll [source, exported, attributes] "" (typeMark typeOnly) :
        Parser Node).Yields Plain := by
    refine fun exported hexported => callFree_fromClause.bind fun ⟨source, attributes⟩ hx =>
      .seq fun _ => .finish fun span _ => ?_
    refine callFree_of_children (by decide) ?_
    simp [hx.1, hx.2, hexported]
  refine .seq fun _ => .seq fun found => ?_
  dsimp only
  split
  · exact callFree_exportName.bind hrest
  · exact Yields.bind (.pure callFree_leaf) hrest

theorem clausal_plain : Clausal Plain where
  of_kind := plain_of_kind
  congr := plain_congr
  importDeclaration := plain_importDeclaration
  exportList := plain_exportList
  exportStar := plain_exportStar

end ScriptLoader.Syntax.Grammar

namespace ScriptLoader.Compile.Linked

open Syntax

/-- The declarations that are replaced in a program hold no calls. -/
theorem plain_of_read {dialect : Dialect} {source : List Char} {program : Program}
    (h : Program.read dialect source = .ok program) : ∀ n ∈ program.statements, Plain n :=
  Grammar.clausal_plain.of_read (fun _ _ _ => callFree_leaf) h

end ScriptLoader.Compile.Linked
