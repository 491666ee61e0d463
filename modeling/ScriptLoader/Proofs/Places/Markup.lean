import ScriptLoader.Proofs.Places.Expressions

/-!
# Elements of markup in a source

Text between elements is no sequence of tokens; where it is read, the cursor stands on the bracket
behind it. The last bracket of an element is not read with the element, whose span it belongs to.

* `Grammar.runs_markupChildren`: the children of an element stand behind its opening tag.
* `Grammar.runs_elementRule`: an element is a tree up to the token that is not read yet.
-/

namespace ScriptLoader.Syntax.Grammar

open Syntax.Parser Compile.Linked

set_option synthInstance.maxSize 1000000

variable {source : List Char} (g : Grammar) [hg : Placed source g]

/-! ## Tags -/

instance : Moves source markupName := by
  refine ⟨fun c => .standing fun hc => .cursor ?_⟩
  split
  · next htoken =>
    have hknown : Shrinks c.here c.rest := hc.shrinks (by simp [htoken]) (by simp [htoken])
    dsimp only
    have hsuffix :
        c.rest.drop (c.rest.takeWhile fun d => isNamePart d || d = '-').length <:+ c.rest :=
      List.drop_suffix _ _
    have hshrinks : Shrinks c.here
        (c.rest.drop (c.rest.takeWhile fun d => isNamePart d || d = '-').length) :=
      ⟨hsuffix.trans hknown.1, Nat.lt_of_le_of_lt hsuffix.length_le hknown.2⟩
    exact (Runs.retoken hshrinks (by simp)).bind fun _ d _ _ _ _ => Moves.runs d
  · exact .refuse

instance : Lays source [] tag := by
  unfold tag
  refine .seq fun start => .seq fun ⟨name, span⟩ => .seq fun colon => ?_
  dsimp only
  split
  · exact .seq fun ⟨member, _⟩ => inferInstance
  · refine .seq fun dotted => ?_
    split
    · -- The root is a leaf, and so is each member's name.
      have hroot : Leaves []
          [if name = "this" then .mk .this [] "" span [] else .mk .reference [] name span []] [] := by
        split <;> exact (leaves_nil []).sameCalls sameCalls_leaf
      refine .loop inferInstance hroot fun e => .seq fun dot => ?_
      split
      · refine .seq fun ⟨member, span⟩ => ?_
        infer_instance
      · infer_instance
    · split
      · infer_instance
      · split <;> infer_instance

instance : Lays source [] quotedValue := by
  refine .of_runs fun c => .cursor ?_
  split
  · next q cs hhere =>
    refine .ite ?_ .refuse
    dsimp only
    split
    · next d rest hrest =>
      have hsuffix : rest <:+ cs :=
        (List.suffix_cons d rest).trans (hrest ▸ List.dropWhile_suffix _)
      have hshrinks : Shrinks c.here rest := hhere ▸ shrinks_cons hsuffix
      refine (Runs.retoken hshrinks fun _ => Token.noConfusion).bind fun _ b _ _ hst _ => ?_
      exact Runs.laid.mono fun n d hn _ _ _ => hn.mono hst (Nat.le_refl _)
    · exact .refuse
  · exact .refuse

instance : Lays source [] (attributeValue g) := by
  unfold attributeValue
  dsimp only
  infer_instance

instance : Lays source [] (attribute_ g) := by
  unfold attribute_
  refine .seq fun start => .seq fun spread => ?_
  split
  · infer_instance
  · refine .seq fun ⟨name, span⟩ => .seq fun colon => ?_
    dsimp only
    split
    · refine .seq fun ⟨member, last⟩ => ?_
      dsimp only
      infer_instance
    · infer_instance

instance : Lays source [] (attributes_ g) := by
  unfold attributes_
  infer_instance

/-! ## Children -/

/-- The text behind a bracket ends in front of the next one. -/
theorem runs_markupText (c : Cursor) : Runs source markupText c fun n d =>
    SameCalls [n] [] ∧ c.span.stop ≤ d.lastStop := by
  intro s n d hs hc h
  unfold markupText at h
  dsimp only at h
  split at h
  · cases h
  · split at h
    · next b rest hhere =>
      cases h
      have hsuffix : b :: rest <:+ c.rest := hhere ▸ List.dropWhile_suffix _
      have hne : c.rest ≠ [] := by
        intro hnil
        rw [hnil, List.suffix_nil] at hsuffix
        cases hsuffix
      rw [hc.rest hne] at hsuffix
      have hsource : b :: rest <:+ source := hsuffix.trans (List.drop_suffix _ _)
      have hplace := eq_drop_of_suffix hsource
      have hafter := eq_drop_of_suffix ((List.suffix_cons b rest).trans hsource)
      have hlength := hsuffix.length_le
      have hstart := hc.start_le
      have hstop := hc.stop_le
      have hbehind := hc.behind
      rw [List.length_drop, List.length_cons] at hlength
      rw [hhere, List.length_cons, hs] 
      rw [List.length_cons] at hplace
      have hnext : source.length - (rest.length + 1) + 1 = source.length - rest.length := by omega
      refine ⟨?_, ?_, ?_, sameCalls_leaf, ?_⟩
      · exact {
          behind := Nat.le_refl _
          start_le := Nat.le_succ _
          stop_le := by dsimp only; omega
          here := hplace
          rest := fun _ => hafter.trans (by dsimp only; rw [hnext])
          solid := fun _ _ => Nat.lt_succ_self _
          string := fun _ => nofun }
      · dsimp only; omega
      · dsimp only; omega
      · dsimp only; omega
    · cases h

/-- The children stand behind the bracket of the opening tag. -/
theorem runs_markupChildren (c : Cursor) : Runs source (markupChildren g) c fun ns d =>
    Laid source c.span.stop d.lastStop ns := by
  refine Runs.loop (Q := fun acc d =>
    c.span.stop ≤ d.span.stop ∧ Laid source c.span.stop d.span.stop acc) ⟨Nat.le_refl _, .nil⟩
    fun acc d ⟨hc, hacc⟩ _ _ _ => ?_
  refine (runs_markupText d).bind fun text e ⟨htext, hle⟩ _ _ hbehind => ?_
  dsimp only
  have hacc' : Laid source c.span.stop e.lastStop
      (if text.text = "" then acc else text :: acc) := by
    split
    · exact hacc.mono (Nat.le_refl _) hle
    · exact (SameCalls.append htext (.refl acc)).laid (hacc.mono (Nat.le_refl _) hle)
  generalize (if text.text = "" then acc else text :: acc) = acc at hacc'
  -- What is read behind the text stands behind the children before it.
  have hnext : ∀ n stop, Laid source e.span.start stop [n] → e.span.start ≤ stop →
      Laid source c.span.stop stop (n :: acc) := fun n stop hn hstop =>
    (hacc'.append hn (by omega) (by omega) (by omega)).of_perm
      (List.perm_append_singleton n acc).symm
  have hbrace : ∀ {kind : Kind} {f : Cursor} {cs : List Node}, kind ≠ .importCall →
      f.Stands source → e.span.start ≤ f.lastStop → Laid source e.span.start f.lastStop cs →
      c.span.stop ≤ f.span.stop ∧ Laid source c.span.stop f.span.stop
        (.mk kind [] "" ⟨e.span.start, f.span.stop⟩ cs :: acc) := by
    intro kind f cs hkind hf hle hcs
    have hstart := hf.behind
    have hstop := hf.start_le
    refine ⟨by omega, hnext _ _ ?_ (by omega)⟩
    exact (sameCalls_node hkind).laid (hcs.mono (Nat.le_refl _) (by omega))
  refine .position <| .still fun brace => .ite ?_ ?_
  · refine Runs.advance.bind fun _ f ⟨_, hopen, _⟩ _ hst _ => .still fun closed => .ite ?_ ?_
    · refine .cursor <| .standing fun hf => .pure ?_
      exact hbrace (by decide) hf hopen (sameCalls_leaf.laid .nil)
    · refine .seq fun spread f₁ _ hst₁ _ => (Spans.runs f₁).bind fun n f₂ hn _ hst₂ _ =>
        .cursor <| .standing fun hf => .ite .refuse <| .pure ?_
      refine hbrace ?_ hf ?_ ?_
      · split <;> decide
      · omega
      · exact hn.between.mono (by omega) (Nat.le_refl _)
  · refine .still fun n => .ite ?_ ?_
    · refine .seq fun _ f _ _ _ => .seq fun _ f' _ _ _ => .pure ?_
      exact (hacc'.mono (Nat.le_refl _) (by omega)).of_perm (List.reverse_perm _)
    · refine (Placed.element e).bind fun n f hn _ _ _ => .pure ?_
      have hstart := hn.starts
      have hsolid := hn.solid
      have hstop := hn.stops
      exact ⟨by omega, hnext n _ hn.between (by omega)⟩

/-- An element ends with a bracket that is not read yet. -/
theorem runs_elementRule (c : Cursor) : Runs source (elementRule g) c fun n d =>
    Formed source c.span.start d.span.stop n := by
  refine .position <| (Runs.expect "<").bind fun _ d₁ hopen _ _ hbehind => .still fun fragment => ?_
  have helement : ∀ {d : Cursor} {cs : List Node}, d.Stands source →
      c.span.start < d.lastStop → Laid source d₁.span.start d.lastStop cs →
      Formed source c.span.start d.span.stop
        (.mk .element [] "" ⟨c.span.start, d.span.stop⟩ cs) := by
    intro d cs hd hlt hcs
    have hstart := hd.behind
    have hstop := hd.start_le
    refine .node trivial (Nat.le_refl _) (by dsimp only; omega) (Nat.le_refl _) ?_
    exact hcs.mono (by dsimp only; omega) (by dsimp only; omega)
  refine .ite ?_ ?_
  · refine .standing fun hd₁ => (runs_markupChildren g d₁).bind fun children d hchildren hle _ _ =>
      .cursor <| .standing fun hd => .ite .refuse <| .pure ?_
    have hstop := hd₁.start_le
    refine helement hd (by omega) ?_
    refine ((sameCalls_absent _).trans (sameCalls_node (by decide))).laid ?_
    exact hchildren.mono (by omega) (Nat.le_refl _)
  · refine (Runs.laid (p := tag)).bind fun name e hname hle hst hbehind => .still fun s => ?_
    extract_lets rest
    have hrest : ∀ t f, e.lastStop ≤ f.lastStop → d₁.span.start ≤ f.span.start →
        Laid source d₁.span.start f.lastStop [name, t] →
        Runs source (rest t) f fun n d => Formed source c.span.start d.span.stop n := by
      intro t f hle₁ hst₁ hlaid
      unfold rest
      dsimp only
      refine (Runs.beside (p := attributes_ g) hst₁ hlaid).bind
        fun attributes f₁ hattributes hle₂ _ _ => ?_
      have hfront : ∀ d, f₁.lastStop ≤ d →
          Laid source d₁.span.start d (name :: (Node.withType [] t ++ attributes)) := by
        intro d hd
        have hperm : ([name, t] ++ attributes).Perm (attributes ++ [name, t]) :=
          List.perm_append_comm
        have hall := (hattributes.of_perm hperm).mono (Nat.le_refl _) hd
        exact (SameCalls.cons (.refl [name])
          ((sameCalls_withType [] t).append (.refl attributes))).laid hall
      generalize Node.withType [] t ++ attributes = front at hfront
      refine .seq fun slash f₂ hle₃ hst₃ hbehind₃ => .ite ?_ ?_
      · refine .cursor <| .standing fun hf₂ => .ite .refuse <| .pure <|
          helement hf₂ (by omega) ?_
        have hchildren : SameCalls (name :: (front ++ [.mk .children [] ""
            ⟨c.span.start, f₂.span.stop⟩ []])) (name :: front ++ []) :=
          (SameCalls.refl (name :: front)).append sameCalls_leaf
        refine hchildren.laid ?_
        rw [List.append_nil]
        exact hfront _ hle₃
      · refine .standing fun hf₂ => (runs_markupChildren g f₂).bind fun children f₃ hchildren
          hle₄ _ _ => .seq fun closing f₄ hle₅ _ _ => .cursor <| .standing fun hf₄ =>
            .ite .refuse <| .ite .refuse <| .pure <| helement hf₄ (by omega) ?_
        have hstop := hf₂.start_le
        have hchild : SameCalls (name :: (front ++ [.mk .children [] ""
            ⟨c.span.start, f₄.span.stop⟩ children])) (name :: front ++ children) :=
          (SameCalls.refl (name :: front)).append (sameCalls_node (by decide))
        refine hchild.laid ?_
        exact (hfront _ hle₃).append (hchildren.mono (Nat.le_refl _) hle₅) (by omega) (by omega)
          (by omega)
    clear_value rest
    refine .ite ?_ (.handed (hrest untyped e (Nat.le_refl _) hst ?_))
    · refine (Runs.beside (p := typeArguments? g) hst hname).bind
        fun t f ht hle₁ hst₁ _ => hrest t f hle₁ (Nat.le_trans hst hst₁) ?_
      exact ht.of_perm (.swap t name [])
    · exact ((SameCalls.refl [name]).append sameCalls_leaf).laid hname

end ScriptLoader.Syntax.Grammar
