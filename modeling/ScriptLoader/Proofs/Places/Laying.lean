import ScriptLoader.Proofs.Places.Running
import ScriptLoader.Proofs.Places.Trees

/-!
# Parsers lay trees out

The trees in the result of a parser stand in what it read, in the order in which it read them.

* `Parser.Lays`: the trees in the result stand behind a place, if those read before do. It is found
  from the parts of a parser; the trees that a node is made of are looked for among those read so
  far (`Among`).
* `Parser.Ends`: the result is a node up to the end of the last token.
* `Parser.Strict`: something is read.
* `Parser.Spans`: the result is a tree whose span is around its calls. All of the above together say
  so (`Spans.own`).
-/

namespace ScriptLoader.Syntax

open Compile.Linked

/-- A proposition that is found by unfolding. -/
class Holds (p : Prop) : Prop where
  holds : p

instance : Holds True := ⟨trivial⟩

/-! ## Trees in results -/

/-- Values with trees in them. -/
class HasNodes (α : Type) where
  nodes : α → List Node

export HasNodes (nodes)

instance : HasNodes Node := ⟨fun n => [n]⟩

instance : HasNodes (List Node) := ⟨id⟩

instance {α : Type} [HasNodes α] : HasNodes (Option α) := ⟨fun a => a.elim [] nodes⟩

instance {α β : Type} [HasNodes α] [HasNodes β] : HasNodes (α ⊕ β) := ⟨Sum.elim nodes nodes⟩

instance {α : Type} [HasNodes α] : HasNodes (Bool × α) := ⟨fun a => nodes a.2⟩

instance {α : Type} [HasNodes α] : HasNodes (α × Bool) := ⟨fun a => nodes a.1⟩

instance : HasNodes (Node × Node) := ⟨fun a => [a.1, a.2]⟩

/-- Values without trees in them. -/
class Treeless (α : Type) : Prop

instance : Treeless Unit := ⟨⟩

instance : Treeless Bool := ⟨⟩

instance : Treeless Nat := ⟨⟩

instance : Treeless String := ⟨⟩

instance : Treeless Cursor := ⟨⟩

instance : Treeless Setting := ⟨⟩

instance : Treeless Mark := ⟨⟩

instance : Treeless (String × Span) := ⟨⟩

instance {α : Type} [Treeless α] : Treeless (List α) := ⟨⟩

/-- The trees in a value. -/
class Consists {α : Type} [HasNodes α] (a : α) (ns : outParam (List Node)) : Prop where
  nodes_eq : nodes a = ns

section

variable {α β : Type} [HasNodes α] [HasNodes β] {a : α} {ns : List Node}

instance (n : Node) : Consists n [n] := ⟨rfl⟩

instance (ns : List Node) : Consists ns ns := ⟨rfl⟩

instance [h : Consists a ns] : Consists (some a) ns := ⟨h.nodes_eq⟩

instance : Consists (none : Option α) [] := ⟨rfl⟩

instance (b : Bool) [h : Consists a ns] : Consists (b, a) ns := ⟨h.nodes_eq⟩

instance (b : Bool) [h : Consists a ns] : Consists (a, b) ns := ⟨h.nodes_eq⟩

instance (n m : Node) : Consists (n, m) [n, m] := ⟨rfl⟩

instance [h : Consists a ns] : Consists (Sum.inl a : α ⊕ β) ns := ⟨h.nodes_eq⟩

instance [h : Consists a ns] : Consists (Sum.inr a : β ⊕ α) ns := ⟨h.nodes_eq⟩

end

/-! ## Trees among others -/

/-- Where the trees `before` are laid out, so are `ns` and the others. -/
def Leaves (before ns rest : List Node) : Prop :=
  ∀ source lo hi more, Laid source lo hi (before ++ more) → Laid source lo hi (ns ++ (rest ++ more))

/-- The trees in a value are among others. -/
class Found {α : Type} [HasNodes α] (a : α) (before : List Node) (rest : outParam (List Node)) :
    Prop where
  leaves : Leaves before (nodes a) rest

/-- A tree is made of others. -/
class AmongOne (n : Node) (before : List Node) (rest : outParam (List Node)) : Prop where
  leaves : Leaves before [n] rest

/-- Trees are made of others. -/
class Among (ns before : List Node) (rest : outParam (List Node)) : Prop where
  leaves : Leaves before ns rest

section

variable {α β : Type} [HasNodes α] [HasNodes β] {before rest rest' ns ms : List Node} {n : Node}

theorem Leaves.trans (h : Leaves before ns rest) (k : Leaves rest ms rest') :
    Leaves before (ns ++ ms) rest' := by
  intro source lo hi more hlaid
  -- What is left of the first step goes to the second with the trees found so far behind it.
  have hfirst : Laid source lo hi (rest ++ (more ++ ns)) := by
    refine (h source lo hi more hlaid).of_perm ?_
    rw [← List.append_assoc]
    exact List.perm_append_comm
  refine (k source lo hi _ hfirst).of_perm ?_
  rw [List.append_assoc]
  refine List.perm_append_comm.trans ?_
  simp only [List.append_assoc]
  refine List.Perm.append_left ms ?_
  simp

theorem Leaves.sameCalls (h : Leaves before ns rest) (hcalls : SameCalls ms ns) :
    Leaves before ms rest := fun source lo hi more hlaid =>
  (hcalls.append (.refl _)).laid (h source lo hi more hlaid)

theorem Leaves.first (h : Leaves before ns rest) {source : List Char} {lo hi : Nat}
    {more : List Node} (hlaid : Laid source lo hi (before ++ more)) :
    Laid source lo hi (ns ++ more) :=
  (h source lo hi more hlaid).of_sublist ((List.sublist_append_right rest more).append_left ns)

theorem leaves_nil (before : List Node) : Leaves before [] before := fun _ _ _ _ h => h

theorem leaves_all (ns : List Node) : Leaves ns ns [] := fun _ _ _ _ h => h

theorem leaves_last (before ns : List Node) : Leaves (before ++ ns) ns before :=
  fun source lo hi more h => h.of_perm <| by
    rw [← List.append_assoc]
    exact List.Perm.append_right _ List.perm_append_comm

theorem Leaves.append (h : Leaves before ns rest) (ms : List Node) :
    Leaves (before ++ ms) ns (rest ++ ms) := by
  intro source lo hi more hlaid
  rw [List.append_assoc] at hlaid ⊢
  exact h source lo hi _ hlaid

instance (a : α) : Found a (before ++ nodes a) before := ⟨leaves_last _ _⟩

instance (priority := low) {a : α} (b : β) [h : Found a before rest] :
    Found a (before ++ nodes b) (rest ++ nodes b) := ⟨h.leaves.append _⟩

instance (priority := low) [h : Found n before rest] : AmongOne n before rest := ⟨h.leaves⟩

instance : AmongOne .absent before before :=
  ⟨fun _ _ _ _ h => (SameCalls.append sameCalls_leaf (.refl _)).laid h⟩

instance {kind : Kind} {marks : List Mark} {text : String} {span : Span} [hkind : Holds kind.Plain]
    [h : Among ns before rest] : AmongOne (.mk kind marks text span ns) before rest :=
  ⟨h.leaves.sameCalls (sameCalls_node hkind.holds.ne_importCall)⟩

instance (mark : Mark) [h : AmongOne n before rest] : AmongOne (n.withMark mark) before rest :=
  ⟨h.leaves.sameCalls (sameCalls_withMark mark n)⟩

instance (priority := low) [h : Found ns before rest] : Among ns before rest := ⟨h.leaves⟩

instance : Among [] before before := ⟨leaves_nil before⟩

instance [hn : AmongOne n before rest] [hns : Among ns rest rest'] :
    Among (n :: ns) before rest' := ⟨hn.leaves.trans hns.leaves⟩

instance [hns : Among ns before rest] [hms : Among ms rest rest'] :
    Among (ns ++ ms) before rest' := ⟨hns.leaves.trans hms.leaves⟩

instance [h : Among ns before rest] : Among ns.reverse before rest :=
  ⟨fun source lo hi more hlaid => (h.leaves source lo hi more hlaid).of_perm
    ((List.reverse_perm ns).append_right _)⟩

instance (f : Node → Bool) [h : Among ns before rest] : Among (ns.filter f) before rest :=
  ⟨fun source lo hi more hlaid => (h.leaves source lo hi more hlaid).of_sublist
    (List.filter_sublist.append_right _)⟩

instance [h : Among ns before rest] : AmongOne (.ofTypes ns) before rest :=
  ⟨h.leaves.sameCalls (sameCalls_ofTypes ns)⟩

instance [h : Among (ns ++ [n]) before rest] : Among (Node.withType ns n) before rest :=
  ⟨h.leaves.sameCalls (sameCalls_withType ns n)⟩

instance [h : Among (n :: ns) before rest] : AmongOne (n.withSignature ns) before rest :=
  ⟨fun source lo hi more hlaid => laid_withSignature (h.leaves source lo hi more hlaid)⟩

end

namespace Parser

/-! ## Parsers that lay trees out -/

variable {source : List Char} {α β γ δ : Type} {before : List Node}

/-- The trees in the result stand behind a place, if the trees that were read before it do. Others
that were read before stay where they are. -/
class Lays (source : List Char) (before : List Node) [HasNodes α] (p : Parser α) : Prop where
  runs : ∀ lo c more, lo ≤ c.span.start → Laid source lo c.lastStop (before ++ more) →
    Runs source p c fun a d => Laid source lo d.lastStop (nodes a ++ more)

/-- A parser to which certain trees that were read before are handed over. -/
class Hands (source : List Char) [HasNodes α] (p : Parser α) (ns : outParam (List Node)) :
    Prop where
  lays : Lays source ns p

section

variable [HasNodes α] [HasNodes β] {p q : Parser α} {f : α → Parser β}

instance (priority := low) [h : Lays source [] p] : Moves source p :=
  Runs.moves fun c => h.runs c.span.start c [] (Nat.le_refl _) .nil

/-- Trees that are read behind others. -/
theorem Lays.of_runs (h : ∀ c, Runs source p c fun a d =>
    Laid source c.span.start d.lastStop (nodes a)) : Lays source [] p where
  runs lo c more hlo hmore := .standing fun hc => by
    refine (h c).mono fun a d ha hle _ _ => ?_
    exact (hmore.append ha hlo hc.behind hle).of_perm List.perm_append_comm

theorem Runs.laying [hp : Lays source before p] {lo : Nat} {c : Cursor} (hlo : lo ≤ c.span.start)
    (hbefore : Laid source lo c.lastStop before) : Runs source p c fun a d =>
    Laid source lo d.lastStop (nodes a) :=
  (hp.runs lo c [] hlo (by rwa [List.append_nil])).mono fun _ _ ha _ _ _ => by
    rwa [List.append_nil] at ha

theorem Runs.laid [Lays source [] p] {c : Cursor} : Runs source p c fun a d =>
    Laid source c.span.start d.lastStop (nodes a) := .laying (Nat.le_refl _) .nil

/-- Trees that were read before stay where they are. -/
theorem Runs.beside [hp : Lays source [] p] {lo : Nat} {c : Cursor} {others : List Node}
    (hlo : lo ≤ c.span.start) (hothers : Laid source lo c.lastStop others) :
    Runs source p c fun a d => Laid source lo d.lastStop (nodes a ++ others) :=
  hp.runs lo c others hlo hothers

/-- What was read before may be dropped. -/
theorem Lays.dropping (before : List Node) [hp : Lays source [] p] : Lays source before p where
  runs lo c more hlo hlaid :=
    hp.runs lo c more hlo (hlaid.of_sublist (List.sublist_append_right before more))

theorem Lays.handing {ns rest : List Node} (hp : Lays source ns p) (h : Leaves before ns rest)
    {f : α → Parser β} (hf : ∀ a, Lays source (rest ++ nodes a) (f a)) :
    Lays source before (p >>= f) where
  runs lo c more hlo hlaid := by
    refine (hp.runs lo c (rest ++ more) hlo (h _ _ _ _ hlaid)).bind fun a d ha _ hst _ => ?_
    refine (hf a).runs lo d more (Nat.le_trans hlo hst) (ha.of_perm ?_)
    rw [← List.append_assoc]
    exact List.Perm.append_right _ List.perm_append_comm

instance {ns rest : List Node} [hp : Hands source p ns] [h : Among ns before rest]
    [hf : ∀ a, Lays source (rest ++ nodes a) (f a)] : Lays source before (p >>= f) :=
  .handing hp.lays h.leaves hf

instance (priority := low) {ns rest : List Node} [hp : Hands source p ns]
    [h : Among ns before rest] : Lays source before p where
  runs lo c more hlo hlaid :=
    (hp.lays.runs lo c (rest ++ more) hlo (h.leaves _ _ _ _ hlaid)).mono fun _ _ ha _ _ _ =>
      ha.of_sublist ((List.sublist_append_right rest more).append_left _)

theorem Lays.bind (hp : Lays source [] p) (hf : ∀ a, Lays source (before ++ nodes a) (f a)) :
    Lays source before (p >>= f) := .handing hp (leaves_nil before) hf

instance [hp : Lays source [] p] [hf : ∀ a, Lays source (before ++ nodes a) (f a)] :
    Lays source before (p >>= f) := .bind hp hf

/-- A parser behind another one that answers no trees. -/
theorem Lays.seq {p : Parser γ} {f : γ → Parser α} [Moves source p]
    (hf : ∀ a, Lays source before (f a)) : Lays source before (p >>= f) where
  runs lo _ more hlo hlaid := Runs.seq fun a d hle hst _ =>
    (hf a).runs lo d more (Nat.le_trans hlo hst) (hlaid.mono (Nat.le_refl _) hle)

instance [Treeless γ] {p : Parser γ} {f : γ → Parser α} [Moves source p]
    [hf : ∀ a, Lays source before (f a)] : Lays source before (p >>= f) := .seq hf

instance [Treeless γ] [Treeless δ] {p : Parser (γ × δ)} {f : γ × δ → Parser α} [Moves source p]
    [hf : ∀ a b, Lays source before (f (a, b))] : Lays source before (p >>= f) :=
  .seq fun a => hf a.1 a.2

instance {p : Parser (Node × Node)} {f : Node × Node → Parser α} [hp : Lays source [] p]
    [hf : ∀ a b, Lays source (before ++ nodes a ++ nodes b) (f (a, b))] :
    Lays source before (p >>= f) :=
  .bind hp fun a => by
    have hnodes : before ++ nodes a = before ++ nodes a.1 ++ nodes a.2 :=
      (List.append_assoc before [a.1] [a.2]).symm
    rw [hnodes]
    exact hf a.1 a.2

instance {ns rest : List Node} {a : α} [ha : Consists a ns] [h : Among ns before rest] :
    Lays source before (Pure.pure a) where
  runs _ _ more _ hlaid := .pure (by
    rw [ha.nodes_eq]
    exact h.leaves.first hlaid)

instance {ns : List Node} {a : α} [ha : Consists a ns] : Hands source (Pure.pure a) ns where
  lays := ⟨fun _ _ _ _ hlaid => .pure (by rwa [ha.nodes_eq])⟩

instance (reason : String) : Lays source before (refuse reason : Parser α) :=
  ⟨fun _ _ _ _ _ => .refuse⟩

instance (reason : String) {f : γ → Parser α} :
    Lays source before ((refuse reason : Parser γ) >>= f) := ⟨fun _ _ _ _ _ => .refuse⟩

instance {b : Prop} [Decidable b] [hp : Lays source before p] [hq : Lays source before q] :
    Lays source before (if b then p else q) := by
  split
  · exact hp
  · exact hq

instance (f : Setting → Setting) [KeepsSize f] [hp : Lays source before p] :
    Lays source before (within f p) :=
  ⟨fun lo c more hlo hlaid => (hp.runs lo c more hlo hlaid).within f⟩

theorem Lays.loop {step : α → Parser (α ⊕ β)} {ns rest : List Node} {a : α} (ha : Consists a ns)
    (h : Leaves before ns rest) (hstep : ∀ a, Lays source ([] ++ nodes a) (step a)) :
    Lays source before (Parser.loop step a) where
  runs lo _ more hlo hlaid := by
    refine Runs.loop (Q := fun a d => Laid source lo d.lastStop (nodes a ++ more)) ?_
      fun a d ha _ hst _ => ?_
    · rw [ha.nodes_eq]
      exact h.first hlaid
    · refine ((hstep a).runs lo d more (Nat.le_trans hlo hst) ha).mono fun next e hnext _ _ _ => ?_
      cases next <;> exact hnext

instance {step : α → Parser (α ⊕ β)} {ns : List Node} {a : α} [ha : Consists a ns]
    [hstep : ∀ a, Lays source ([] ++ nodes a) (step a)] : Hands source (Parser.loop step a) ns :=
  ⟨.loop ha (leaves_all ns) hstep⟩

/-- Nodes that are made of trees read before. -/
theorem Lays.finish {start : Nat} {kind : Kind} {cs rest : List Node} {text : String}
    {marks : List Mark} (hkind : kind.Plain) (h : Leaves before cs rest) :
    Lays source before (Parser.finish start kind cs text marks) where
  runs lo c more hlo hlaid := by
    rintro s _ d hs hc ⟨⟩
    refine ⟨hc, Nat.le_refl _, Nat.le_refl _, ?_⟩
    exact ((sameCalls_node hkind.ne_importCall).append (.refl _)).laid (h.first hlaid)

instance {start : Nat} {kind : Kind} {cs rest : List Node} {text : String} {marks : List Mark}
    [hkind : Holds kind.Plain] [h : Among cs before rest] :
    Lays source before (Parser.finish start kind cs text marks) := .finish hkind.holds h.leaves

instance {start : Nat} {kind : Kind} {cs : List Node} {text : String} {marks : List Mark}
    [hkind : Holds kind.Plain] : Hands source (Parser.finish start kind cs text marks) cs :=
  ⟨.finish hkind.holds (leaves_all cs)⟩

instance (kind : Kind) (text : String) (marks : List Mark) :
    Lays source [] (leaf kind text marks) := by
  refine .of_runs fun c => Runs.seq fun start d _ _ _ => Runs.seq fun _ e _ _ _ => ?_
  rintro s _ _ hs he ⟨⟩
  exact ⟨he, Nat.le_refl _, Nat.le_refl _, sameCalls_leaf.laid .nil⟩

end

section

variable (close sep : String) {p : Parser Node} [Lays source [] p]

instance : Lays source [] (itemsUntil close p) := by
  unfold itemsUntil
  infer_instance

set_option synthInstance.maxSize 2000 in
instance : Lays source [] (commaUntil close p) := by
  unfold commaUntil
  infer_instance

instance : Lays source [] (separated sep p) := by
  unfold separated
  infer_instance

end

/-! ## Parsers that read something -/

/-- Something is read. -/
class Strict (source : List Char) (p : Parser α) : Prop where
  runs : ∀ c, Runs source p c fun _ d => c.span.start < d.lastStop

section

variable {p q : Parser α} {f : α → Parser β}

theorem Strict.first (hp : Strict source p) [hf : ∀ a, Moves source (f a)] :
    Strict source (p >>= f) :=
  ⟨fun c => (hp.runs c).bind fun a d hlt _ _ _ =>
    ((hf a).runs d).mono fun _ _ _ hle _ _ => Nat.lt_of_lt_of_le hlt hle⟩

instance [hp : Strict source p] [∀ a, Moves source (f a)] : Strict source (p >>= f) := .first hp

instance (priority := low) [Moves source p] [hf : ∀ a, Strict source (f a)] :
    Strict source (p >>= f) :=
  ⟨fun _ => Runs.seq fun a d _ hst _ => ((hf a).runs d).mono fun _ _ hlt _ _ _ =>
    Nat.lt_of_le_of_lt hst hlt⟩

instance {p : Parser (γ × δ)} {f : γ × δ → Parser β} [hp : Strict source p]
    [hf : ∀ a b, Moves source (f (a, b))] : Strict source (p >>= f) :=
  have : ∀ a, Moves source (f a) := fun a => hf a.1 a.2
  .first hp

instance (priority := low) {p : Parser (γ × δ)} {f : γ × δ → Parser β} [hp : Moves source p]
    [hf : ∀ a b, Strict source (f (a, b))] : Strict source (p >>= f) :=
  have : ∀ a, Strict source (f a) := fun a => hf a.1 a.2
  inferInstance

instance (reason : String) : Strict source (refuse reason : Parser α) := ⟨fun _ => .refuse⟩

instance (reason : String) : Strict source ((refuse reason : Parser α) >>= f) :=
  ⟨fun _ => .refuse⟩

instance {b : Prop} [Decidable b] [hp : Strict source p] [hq : Strict source q] :
    Strict source (if b then p else q) := by
  split
  · exact hp
  · exact hq

instance (f : Setting → Setting) [KeepsSize f] [hp : Strict source p] :
    Strict source (within f p) := ⟨fun c => (hp.runs c).within f⟩

instance (w : String) : Strict source (expect w) := ⟨fun _ => .expect w⟩

instance (w : String) : Strict source (expectWord w) := ⟨fun _ => .expectWord w⟩

/-- A loop whose last round reads something. -/
theorem Strict.loop {step : α → Parser (α ⊕ β)} {a : α} (hstep : ∀ a c, Runs source (step a) c
    fun next d => ∀ b, next = .inr b → c.span.start < d.lastStop) :
    Strict source (Parser.loop step a) where
  runs c := Runs.loop (Q := fun _ _ => True) trivial fun a d _ _ hst _ =>
    (hstep a d).mono fun next e hlast _ _ _ => by
      cases next with
      | inl a => trivial
      | inr b => exact Nat.lt_of_le_of_lt hst (hlast b rfl)

instance (sep : String) [Strict source p] [Moves source p] : Strict source (separated sep p) := by
  unfold separated
  infer_instance

variable (close : String) [Moves source p]

instance : Strict source (itemsUntil close p) :=
  .loop fun _ _ => .choice close (fun _ hlt => .pure fun _ _ => hlt) <|
    .seq fun _ _ _ _ _ => .pure fun _ => nofun

instance : Strict source (commaUntil close p) := by
  refine .loop fun acc c => .choice close (fun _ hlt => .pure fun _ _ => hlt) ?_
  refine .seq fun a d _ hst _ => .choice close (fun e hlt => .pure fun _ _ => ?_) ?_
  · exact Nat.lt_of_le_of_lt hst hlt
  · exact .seq fun _ _ _ _ _ => .pure fun _ => nofun

end

/-! ## Spans of results -/

/-- Nothing is read, and the result is made of one tree. -/
class Answers [HasNodes α] (n : Node) (p : Parser α) : Prop where
  answers : ∀ s c a d, p s c = .ok (a, d) → d = c ∧ nodes a = [n]

section

variable [HasNodes β] {n : Node}

instance {b : β} [h : Consists b [n]] : Answers n (Pure.pure b : Parser β) :=
  ⟨by rintro s c _ d ⟨⟩; exact ⟨rfl, h.nodes_eq⟩⟩

instance (reason : String) : Answers n (refuse reason : Parser β) := ⟨by rintro s c b d ⟨⟩⟩

instance (reason : String) {f : α → Parser β} : Answers n ((refuse reason : Parser α) >>= f) :=
  ⟨by rintro s c b d ⟨⟩⟩

instance {p : Parser α} {f : α → Parser β} [hp : Still p] [hf : ∀ a, Answers n (f a)] :
    Answers n (p >>= f) where
  answers s c b e h := by
    change andThen p f s c = .ok (b, e) at h
    unfold andThen at h
    split at h
    · next a d ha =>
      obtain rfl := hp.still s c a d ha
      exact (hf a).answers s d b e h
    · cases h

instance {p q : Parser β} {b : Prop} [Decidable b] [hp : Answers n p] [hq : Answers n q] :
    Answers n (if b then p else q) := by
  split
  · exact hp
  · exact hq

end

/-- A tree in the result is a node from the given start to the end of the last token, and neither a
call nor a string. -/
class Ends (start : Nat) [HasNodes α] (p : Parser α) : Prop where
  ends : ∀ s c a d, p s c = .ok (a, d) → ∀ n ∈ nodes a, n.span = ⟨start, d.lastStop⟩ ∧ n.kind.Plain

section

variable {start : Nat} [HasNodes β] {p q : Parser β} {f : α → Parser β}

instance {p : Parser α} [hf : ∀ a, Ends start (f a)] : Ends start (p >>= f) where
  ends s c n d h := by
    change andThen p f s c = .ok (n, d) at h
    unfold andThen at h
    split at h
    · exact (hf _).ends _ _ _ _ h
    · cases h

instance {p : Parser (γ × δ)} {f : γ × δ → Parser β} [hf : ∀ a b, Ends start (f (a, b))] :
    Ends start (p >>= f) :=
  have : ∀ a, Ends start (f a) := fun a => hf a.1 a.2
  inferInstance

/-- A node that is answered by what stands behind the parser that read it. -/
instance (priority := high) {p : Parser Node} {f : Node → Parser β} [hp : Ends start p]
    [hf : ∀ n, Answers n (f n)] : Ends start (p >>= f) where
  ends s c b d h := by
    change andThen p f s c = .ok (b, d) at h
    unfold andThen at h
    split at h
    · next n e hn =>
      obtain ⟨rfl, hnodes⟩ := (hf n).answers s e b d h
      rw [hnodes]
      exact hp.ends _ _ _ _ hn
    · cases h

instance (reason : String) : Ends start (refuse reason : Parser β) := ⟨by rintro s c n d ⟨⟩⟩

instance (reason : String) : Ends start ((refuse reason : Parser α) >>= f) :=
  ⟨by rintro s c n d ⟨⟩⟩

instance {b : Prop} [Decidable b] [hp : Ends start p] [hq : Ends start q] :
    Ends start (if b then p else q) := by
  split
  · exact hp
  · exact hq

instance (f : Setting → Setting) [hp : Ends start p] : Ends start (within f p) :=
  ⟨fun s => hp.ends (f s)⟩

instance {kind : Kind} {cs : List Node} {text : String} {marks : List Mark}
    [hkind : Holds kind.Plain] : Ends start (finish start kind cs text marks) where
  ends := by
    rintro s c _ d ⟨⟩ n hn
    obtain rfl := List.mem_singleton.1 hn
    exact ⟨rfl, hkind.holds⟩

end

/-- The result is a tree whose span is around its calls. -/
class Spans (source : List Char) (p : Parser Node) : Prop where
  runs : ∀ c, Runs source p c fun n d => Formed source c.span.start d.lastStop n

section

variable {p : Parser Node} {f : Nat → Parser Node}

instance (priority := low) [hp : Spans source p] : Lays source [] p :=
  .of_runs fun c => (hp.runs c).mono fun _ _ hn _ _ _ => hn.between

instance (priority := low) [hp : Spans source p] : Strict source p where
  runs c := (hp.runs c).mono fun _ _ hn _ _ _ => hn.nonempty

instance (f : Setting → Setting) [KeepsSize f] [hp : Spans source p] : Spans source (within f p) :=
  ⟨fun c => (hp.runs c).within f⟩

section

variable {α : Type} [HasNodes α] {start : Nat} {c : Cursor} {p : Parser α}
  [hl : Lays source before p] [he : Ends start p]

include hl he

/-- A node from a place in front of what was read before. -/
theorem Runs.ending (hs : Runs source p c fun _ d => start < d.lastStop)
    (hstart : start ≤ c.span.start) (hbefore : Laid source start c.lastStop before) :
    Runs source p c fun a d => ∀ n, nodes a = [n] →
      Formed source start d.lastStop n ∧ n.kind.Plain := by
  intro s a d hsize hc h
  obtain ⟨hd, hle, hst, hlaid⟩ :=
    hl.runs start c [] hstart (by rwa [List.append_nil]) s a d hsize hc h
  obtain ⟨-, -, -, hlt⟩ := hs s a d hsize hc h
  refine ⟨hd, hle, hst, fun n hn => ?_⟩
  obtain ⟨hspan, hplain⟩ := he.ends s c a d h n (hn ▸ List.mem_singleton_self n)
  rw [hn] at hlaid
  obtain ⟨kind, marks, text, span, cs⟩ := n
  obtain rfl : span = ⟨start, d.lastStop⟩ := hspan
  refine ⟨.node hplain (Nat.le_refl _) hlt (Nat.le_refl _) ?_, hplain⟩
  exact (sameCalls_node hplain.ne_importCall).symm.laid hlaid

/-- Where something was read behind that place. -/
theorem Runs.ended (hlt : start < c.lastStop) (hstart : start ≤ c.span.start)
    (hbefore : Laid source start c.lastStop before) :
    Runs source p c fun a d => ∀ n, nodes a = [n] →
      Formed source start d.lastStop n ∧ n.kind.Plain := by
  refine .ending (fun s a d hsize hc h => ?_) hstart hbefore
  obtain ⟨hd, hle, hst, -⟩ :=
    hl.runs start c [] hstart (by rwa [List.append_nil]) s a d hsize hc h
  exact ⟨hd, hle, hst, Nat.lt_of_lt_of_le hlt hle⟩

end

theorem Runs.completed {p : Parser Node} {start : Nat} {c : Cursor} [Lays source before p]
    [Ends start p] (hlt : start < c.lastStop) (hstart : start ≤ c.span.start)
    (hbefore : Laid source start c.lastStop before) :
    Runs source p c fun n d => Formed source start d.lastStop n ∧ n.kind.Plain :=
  (Runs.ended hlt hstart hbefore).mono fun n _ h _ _ _ => h n rfl

/-- A node from a place in front of the parser, which reads something. -/
theorem Runs.formed {start : Nat} {c : Cursor} [Lays source before p] [Ends start p]
    [hs : Strict source p] (hstart : start ≤ c.span.start)
    (hbefore : Laid source start c.lastStop before) :
    Runs source p c fun n d => Formed source start d.lastStop n ∧ n.kind.Plain :=
  (Runs.ending ((hs.runs c).mono fun _ _ h _ _ _ => Nat.lt_of_le_of_lt hstart h) hstart
    hbefore).mono fun n _ h _ _ _ => h n rfl

theorem Runs.own {p : Parser Node} {c : Cursor} [Lays source [] p] [Ends c.span.start p]
    [Strict source p] : Runs source p c fun n d => Formed source c.span.start d.lastStop n :=
  (Runs.formed (Nat.le_refl _) .nil).mono fun _ _ h _ _ _ => h.1

/-- A node from a token on that is read already. -/
theorem Runs.since {p : Parser Node} {start : Nat} {c : Cursor} [Lays source [] p] [Ends start p]
    (hlt : start < c.lastStop) (hbehind : c.lastStop ≤ c.span.start) :
    Runs source p c fun n d => Formed source start d.lastStop n :=
  (Runs.ended hlt (by omega) .nil).mono fun n _ h _ _ _ => (h n rfl).1

/-- A node around a tree that was read before it. -/
theorem Runs.around {p : Parser α} [HasNodes α] {start : Nat} {c : Cursor} {e : Node}
    (hstart : start ≤ c.span.start) (he : Formed source start c.lastStop e)
    [Lays source ([] ++ nodes e) p] [Ends start p] :
    Runs source p c fun a d => ∀ n, nodes a = [n] → Formed source start d.lastStop n := by
  have hbefore : Laid source start c.lastStop ([] ++ nodes e) := he.between
  exact (Runs.ended he.nonempty hstart hbefore).mono fun _ _ h _ _ _ n hn => (h n hn).1

theorem Runs.wrapped {p : Parser Node} {start : Nat} {c : Cursor} {e : Node}
    (hstart : start ≤ c.span.start) (he : Formed source start c.lastStop e)
    [Lays source ([] ++ nodes e) p] [Ends start p] :
    Runs source p c fun n d => Formed source start d.lastStop n :=
  (Runs.around hstart he).mono fun n _ h _ _ _ => h n rfl

/-- A node from the place of the parser on. -/
theorem Spans.own [hl : ∀ start, Lays source [] (f start)] [he : ∀ start, Ends start (f start)]
    [hs : ∀ start, Strict source (f start)] : Spans source (position >>= f) where
  runs _ := .position .own

end

end Parser

end ScriptLoader.Syntax
