import ScriptLoader.Proofs.Places.Markup
import ScriptLoader.Proofs.Places.Statements

/-!
# Programs in a source

The statements of a program stand one behind the other in its source, each with a span around the
calls in it.

* `Grammar.placed_ofDepth`: trees that the grammar reads stand where they were read, by induction on
  the nesting.
* `Grammar.inOrder_of_read`, `Linked.spansNested_of_read`: so do the statements of every program.
* `Linked.laid_of_read`: the calls in a program, with the strings that stand in their arguments.
-/

namespace ScriptLoader.Syntax.Grammar

open Syntax.Parser Compile.Linked

variable {source : List Char}

instance (g : Grammar) [Placed source g] : Placed source (rules g) where
  expression := inferInstanceAs (Spans source (expressionRule g))
  assignment := inferInstanceAs (Spans source (assignmentRule g))
  unary := inferInstanceAs (Spans source (unaryRule g))
  leftHand := inferInstanceAs (Spans source (leftHandRule g))
  constructed := inferInstanceAs (Spans source (constructedRule g))
  binding := inferInstanceAs (Lays source [] (bindingRule g))
  strictBinding := inferInstanceAs (Strict source (bindingRule g))
  statement := runs_statementRule g
  type := inferInstanceAs (Lays source [] (typeRule g))
  element := runs_elementRule g

theorem placed_ofDepth (depth : Nat) : Placed source (ofDepth depth) := by
  induction depth with
  | zero => exact {
      expression := ⟨fun _ => .refuse⟩
      assignment := ⟨fun _ => .refuse⟩
      unary := ⟨fun _ => .refuse⟩
      leftHand := ⟨fun _ => .refuse⟩
      constructed := ⟨fun _ => .refuse⟩
      binding := ⟨fun _ _ _ _ _ => .refuse⟩
      strictBinding := ⟨fun _ => .refuse⟩
      statement := fun _ => .refuse
      type := ⟨fun _ _ _ _ _ => .refuse⟩
      element := fun _ => .refuse }
  | succ depth ih => exact inferInstanceAs (Placed source (rules (ofDepth depth)))

/-- Statements one behind the other. -/
structure InOrder (source : List Char) (hi : Nat) (ns : List Node) : Prop where
  formed : ∀ n ∈ ns, Formed source 0 hi n
  ordered : ns.Pairwise fun n m => n.span.stop ≤ m.span.start

/-- One more statement behind the others. -/
theorem InOrder.concat {hi start : Nat} {ns : List Node} {n : Node} (h : InOrder source hi ns)
    {hi' : Nat} (hn : Formed source start hi' n) (hstart : hi ≤ start) (hhi : hi ≤ hi') :
    InOrder source hi' (ns ++ [n]) where
  formed := by
    simp only [List.mem_append, List.mem_singleton]
    rintro m (hm | rfl)
    · exact (h.formed m hm).mono (Nat.le_refl _) hhi
    · exact hn.mono (Nat.zero_le _) (Nat.le_refl _)
  ordered := by
    refine List.pairwise_append.2 ⟨h.ordered, List.pairwise_singleton _ _, fun m hm k hk => ?_⟩
    rw [List.mem_singleton.1 hk]
    exact Nat.le_trans (h.formed m hm).stops (Nat.le_trans hstart hn.starts)

theorem runs_statementsUntil (g : Grammar) [Placed source g] (close : Parser Bool)
    [Moves source close] (c : Cursor) : Runs source (statementsUntil g close) c fun ns d =>
      InOrder source d.lastStop ns := by
  unfold statementsUntil
  refine Runs.loop (Q := fun x d => InOrder source d.lastStop x.2.reverse) ⟨nofun, .nil⟩
    fun ⟨directives, acc⟩ d hacc _ _ _ => ?_
  refine .seq fun closed e hle _ hbehind => ?_
  have hbefore : InOrder source e.lastStop acc.reverse :=
    ⟨fun n hn => (hacc.formed n hn).mono (Nat.le_refl _) hle, hacc.ordered⟩
  refine .ite (.pure hbefore) ?_
  refine .cursor <| (Placed.statement e).bind fun n f ⟨hn, _⟩ hle' _ _ => ?_
  have hnext : ∀ {m : Node}, Formed source e.span.start f.lastStop m →
      InOrder source f.lastStop (m :: acc).reverse := fun hm => by
    rw [List.reverse_cons]
    exact hbefore.concat hm hbehind hle'
  refine .ite (.pure (hnext ?_)) (.pure (hnext hn))
  -- A directive has the place of the statement that it was read as, without the string in it.
  exact .node trivial hn.starts hn.solid hn.stops .nil

theorem suffix_splitHashbang (source : List Char) :
    (Program.splitHashbang source).2 <:+ source := by
  unfold Program.splitHashbang
  split
  · exact (List.dropWhile_suffix _).trans ((List.suffix_cons _ _).trans (List.suffix_cons _ _))
  · exact List.suffix_refl _

/-- The statements of a program stand one behind the other in its source. -/
theorem inOrder_of_read {dialect : Dialect} {source : List Char} {program : Program}
    (h : Program.read dialect source = .ok program) :
    InOrder source source.length program.statements := by
  unfold Program.read at h
  dsimp only at h
  split at h
  · cases h
  · next statements last hs =>
    have hstatements : InOrder source source.length statements := by
      have : Placed source (ofDepth (Program.depthFor source.length)) := placed_ofDepth _
      have hstart := @stands_cursorAt source (Program.setting dialect source.length) true false
        _ _ _ [] rfl (Nat.le_refl _)
        (Nat.sub_le source.length (Program.splitHashbang source).2.length)
        fun _ => eq_drop_of_suffix (suffix_splitHashbang source)
      obtain ⟨hlast, -, -, horder⟩ := runs_statementsUntil _ _ _ _ _ _ rfl hstart hs
      exact ⟨fun n hn => (horder.formed n hn).mono (Nat.le_refl _)
        (Nat.le_trans hlast.behind (Nat.le_trans hlast.start_le hlast.stop_le)), horder.ordered⟩
    split at h
    · cases h
    · split at h
      · cases h
      · cases h
        exact hstatements

end ScriptLoader.Syntax.Grammar

namespace ScriptLoader.Compile.Linked

open Syntax Grammar

variable {source : List Char} {ns : List Node} {lo hi : Nat}

/-- Trees one behind the other, each with its calls. -/
theorem laid_of_formed (h : ∀ n ∈ ns, Formed source lo hi n) (hlo : lo ≤ hi)
    (hordered : ns.Pairwise fun n m => n.span.stop ≤ m.span.start) : Laid source lo hi ns := by
  induction ns generalizing lo with
  | nil => exact .nil
  | cons n ns ih =>
    obtain ⟨hn, hns⟩ := List.forall_mem_cons.1 h
    obtain ⟨hfirst, hrest⟩ := List.pairwise_cons.1 hordered
    have hbehind : Laid source n.span.stop hi ns :=
      ih (fun m hm => { hns m hm with starts := hfirst m hm }) hn.stops hrest
    have hstart := hn.starts
    have hsolid := hn.solid
    exact (hn.laid.mono hstart (Nat.le_refl _)).append hbehind (by omega) (Nat.le_refl _) hn.stops

variable {dialect : Dialect} {program : Program}

/-- The spans of every program are nested as its statements and calls are. -/
theorem spansNested_of_read (h : Program.read dialect source = .ok program) :
    SpansNested program.statements source.length := by
  obtain ⟨hformed, hordered⟩ := inOrder_of_read h
  refine ⟨fun n hn => ⟨(hformed n hn).solid, (hformed n hn).stops⟩, hordered, fun n hn s hs => ?_,
    fun n hn => ?_⟩
  · exact (hformed n hn).laid.within s (by rwa [sitesAll_singleton])
  · rw [← callsNestedAll_singleton]
    exact (hformed n hn).laid.nested

/-- The calls of every program stand in its source as they are nested. -/
theorem laid_of_read (h : Program.read dialect source = .ok program) :
    Laid source 0 source.length program.statements :=
  let horder := inOrder_of_read h
  laid_of_formed horder.formed (Nat.zero_le _) horder.ordered

end ScriptLoader.Compile.Linked
