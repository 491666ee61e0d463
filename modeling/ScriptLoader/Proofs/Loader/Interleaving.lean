import ScriptLoader.Loader.Request
import ScriptLoader.Proofs.Assembly.Once
import ScriptLoader.Proofs.Loader.Retention

/-!
# Requests whose steps interleave

Several requests to one loader go on at a time. Each looks the entry up, resolves its graph while
others load and keep modules, takes prepared modules in, waits until no other request holds the
lock, assembles, keeps what is left over and lets go of the lock. Two of them may well have compiled
the same module and hold it in graphs of their own.

What a resolution finds, what is taken in and what is kept is left open here: between its look-up
and its assembly a request may come to any graph, whatever others did meanwhile. A look-up during
the assembly of another request finds what is there before it or behind it, since slots only fill.

* `Interleaving.Move`, `Interleaving.Step`: the steps of one request, and of one among many.
* `Interleaving.step_advanceAt`: the steps that a loader takes are among them.
* `Interleaving.Sound`: what every step preserves (`Interleaving.sound_step`).
* `Interleaving.instantiates_once`: in every order of steps, the host instantiates no module twice,
  slots do not change once they are filled, and requests return what is in the slot of their entry.
-/

namespace ScriptLoader

variable {F σ : Type}

namespace Stage

/-- Whether the request looks for its graph, or gives up. -/
def isUnsettled : Stage F → Bool
  | resolving _ | resolved _ | compiled _ | failing _ => true
  | _ => false

/-- The module of the entry, once it is there. -/
def module? : Stage F → Option (LoadedModule F)
  | assembled _ (.ok m) | finished (.ok m) => some m
  | _ => none

theorem module?_of_isUnsettled {st : Stage F} (h : st.isUnsettled = true) : st.module? = none := by
  cases st <;> simp_all [isUnsettled, module?]

end Stage

namespace Interleaving

/-- A step of a request for `entry`. It assembles only if it has the lock for itself. -/
inductive Move (host : Host F σ) (locked : Prop) (entry : Specifier) :
    Loader F σ → Stage F → Loader F σ → Stage F → Prop where
  /-- The registry has the module. -/
  | found {l k : Loader F σ} {m : LoadedModule F} : l.registry.get? entry = some m →
    k.assembly = l.assembly → Move host locked entry l .starting k (.finished (.ok m))
  /-- The registry lacks the module. -/
  | begin {l k : Loader F σ} {next : Stage F} : l.registry.get? entry = none →
    k.assembly = l.assembly → next.isUnsettled = true → Move host locked entry l .starting k next
  /-- A module is fetched, compiled or skipped, code is there, or prepared modules are taken in. -/
  | prepare {l k : Loader F σ} {st next : Stage F} : st.isUnsettled = true →
    next.isUnsettled = true → k.assembly = l.assembly → Move host locked entry l st k next
  | assemble {l : Loader F σ} {g : Graph} : ¬ locked →
    Move host locked entry l (.compiled g) (l.assemble host g entry).2
      (.assembled g (l.assemble host g entry).1)
  /-- Records are kept or forgotten. -/
  | keep {l k : Loader F σ} {g : Graph} {result : Except LoadError (LoadedModule F)} :
    k.assembly = l.assembly →
    Move host locked entry l (.assembled g result) k (.assembled g result)
  /-- The lock is let go, and something may have been kept before. -/
  | succeed {l k : Loader F σ} {g : Graph} {m : LoadedModule F} : k.assembly = l.assembly →
    Move host locked entry l (.assembled g (.ok m)) k (.finished (.ok m))
  | fail {l k : Loader F σ} {g : Graph} {e : LoadError} : k.assembly = l.assembly →
    Move host locked entry l (.assembled g (.error e)) k (.failing e)
  | report {l k : Loader F σ} {e : LoadError} : k.assembly = l.assembly →
    Move host locked entry l (.failing e) k (.finished (.error e))

/-- A step of one request among others. A request that was assembled and is not at its end has the
lock. -/
inductive Step (host : Host F σ) :
    Loader F σ × List (LoadRequest F) → Loader F σ × List (LoadRequest F) → Prop where
  | move {l k : Loader F σ} {qs : List (LoadRequest F)} {i : Nat} {q : LoadRequest F}
    {next : Stage F} : qs[i]? = some q →
    Move host (∃ other ∈ qs, other.stage.isAssembled = true) q.entry l q.stage k next →
    Step host (l, qs) (k, qs.set i { q with stage := next })

/-- Steps in any order. -/
inductive Steps (host : Host F σ) (start : Loader F σ × List (LoadRequest F)) :
    Loader F σ × List (LoadRequest F) → Prop where
  | refl : Steps host start start
  | tail {x y : Loader F σ × List (LoadRequest F)} :
    Steps host start x → Step host x y → Steps host start y

theorem Steps.trans {host : Host F σ} {x y z : Loader F σ × List (LoadRequest F)}
    (h : Steps host x y) (k : Steps host y z) : Steps host x z := by
  induction k with
  | refl => exact h
  | tail _ hs ih => exact .tail ih hs

/-! ## The steps of a loader -/

/-- The stage behind a stage that is not the end, and waits for no other request, is a move. -/
theorem move_nextStage {host : Host F σ} {locked : Prop} {entry : Specifier}
    {options : Compile.Options} {l : Loader F σ} {st : Stage F} (hst : st.isFinished = false)
    (hfree : st.isCompiled = true → ¬ locked) :
    Move host locked entry l st (l.nextStage host entry options st).2
      (l.nextStage host entry options st).1 := by
  cases st with
  | starting =>
    unfold Loader.nextStage
    dsimp only
    split
    · next m hm => exact .found hm rfl
    · next hn => exact .begin hn rfl rfl
  | resolving r =>
    unfold Loader.nextStage
    dsimp only
    split <;> exact .prepare rfl rfl rfl
  | resolved g =>
    unfold Loader.nextStage
    dsimp only
    split <;> exact .prepare rfl rfl rfl
  | compiled g => exact .assemble (hfree rfl)
  | assembled g result =>
    have hk := Loader.assembly_retain l options g
    cases result with
    | ok m => exact .succeed hk
    | error e => exact .fail hk
  | failing e => exact .report rfl
  | finished result => cases hst

theorem step_advanceAt (host : Host F σ) (l : Loader F σ) (qs : List (LoadRequest F)) (i : Nat) :
    Loader.advanceAt host (l, qs) i = (l, qs) ∨
      Step host (l, qs) (Loader.advanceAt host (l, qs) i) := by
  unfold Loader.advanceAt
  dsimp only
  split
  · exact Or.inl rfl
  · next q hq =>
    split
    · exact Or.inl rfl
    · next hfree =>
      cases hst : q.stage.isFinished with
      | true =>
        refine Or.inl ?_
        obtain ⟨entry, options, stage⟩ := q
        cases stage <;> simp [Stage.isFinished] at hst
        obtain ⟨hi, hq⟩ := List.getElem?_eq_some_iff.1 hq
        simp only [Loader.advance, Loader.nextStage, ← hq, List.set_getElem_self]
      | false =>
        refine Or.inr (.move hq (move_nextStage hst ?_))
        rintro hc ⟨other, hmem, ho⟩
        refine hfree ?_
        simp only [Loader.isBlocked, hc, Bool.true_and, List.any_eq_true]
        exact ⟨other, hmem, ho⟩

theorem steps_advanceBy (host : Host F σ) (order : List Nat)
    (x : Loader F σ × List (LoadRequest F)) : Steps host x (Loader.advanceBy host x order) := by
  unfold Loader.advanceBy
  induction order generalizing x with
  | nil => exact .refl
  | cons i order ih =>
    rw [List.foldl_cons]
    rcases step_advanceAt host x.1 x.2 i with h | h
    · have := ih (Loader.advanceAt host x i)
      rwa [show Loader.advanceAt host x i = x from h] at this ⊢
    · exact .trans (.tail .refl h) (ih _)

/-! ## What steps preserve -/

/-- What holds however the steps of requests interleave. -/
structure Sound (x : Loader F (σ × List Specifier) × List (LoadRequest F)) : Prop where
  tallied : x.1.assembly.Tallied
  returned : ∀ q ∈ x.2, ∀ m, q.stage.module? = some m → x.1.registry.get? q.entry = some m

section

variable {host : Host F σ} {entry : Specifier} {locked : Prop}

/-- A move leaves modules as they are, or assembles a graph. -/
theorem assembly_move {host : Host F σ} {l k : Loader F σ} {st next : Stage F}
    (h : Move host locked entry l st k next) :
    k.assembly = l.assembly ∨ ∃ g, k = (l.assemble host g entry).2 := by
  cases h with
  | assemble _ => exact Or.inr ⟨_, rfl⟩
  | found _ he => exact Or.inl he
  | begin _ he => exact Or.inl he
  | prepare _ _ he => exact Or.inl he
  | keep he => exact Or.inl he
  | succeed he => exact Or.inl he
  | fail he => exact Or.inl he
  | report he => exact Or.inl he

theorem keeps_move {host : Host F σ} {l k : Loader F σ} {st next : Stage F}
    (h : Move host locked entry l st k next) : Assembly.Keeps [] l.assembly k.assembly := by
  rcases assembly_move h with he | ⟨g, rfl⟩
  · exact he ▸ .refl
  · exact Assembly.keeps_load _ _ _ _ _

theorem tallied_move {l k : Loader F (σ × List Specifier)} {st next : Stage F}
    (h : Move host.recording locked entry l st k next) (hl : l.assembly.Tallied) :
    k.assembly.Tallied := by
  rcases assembly_move h with he | ⟨g, rfl⟩
  · rwa [he]
  · exact Assembly.tallied_load hl

/-- What a request has is in the slot of its entry. -/
theorem returned_move {host : Host F σ} {l k : Loader F σ} {st next : Stage F}
    (h : Move host locked entry l st k next)
    (hl : ∀ m, st.module? = some m → l.registry.get? entry = some m) :
    ∀ m, next.module? = some m → k.registry.get? entry = some m := by
  have grows := (keeps_move h).grows entry
  intro m hm
  cases h with
  | found hf _ =>
    cases hm
    exact grows _ hf
  | begin _ _ hn => simp [Stage.module?_of_isUnsettled hn] at hm
  | prepare _ hn _ => simp [Stage.module?_of_isUnsettled hn] at hm
  | @assemble g _ =>
    generalize hr : (l.assemble host g entry).1 = result at hm
    rcases result with e | n
    · cases hm
    · cases hm
      exact Assembly.get?_of_load_ok hr
  | keep _ => exact grows m (hl m hm)
  | succeed _ => exact grows m (hl m hm)
  | fail _ => cases hm
  | report _ => cases hm

theorem sound_step {x y : Loader F (σ × List Specifier) × List (LoadRequest F)}
    (h : Step host.recording x y) (hx : Sound x) : Sound y := by
  cases h with
  | @move l k qs i q next hq hm =>
    refine ⟨tallied_move hm hx.tallied, ?_⟩
    intro p hp m hpm
    rcases List.mem_or_eq_of_mem_set hp with hp | rfl
    · exact (keeps_move hm).grows _ _ (hx.returned p hp m hpm)
    · exact returned_move hm (hx.returned q (List.mem_of_getElem? hq)) m hpm

theorem sound_steps {x y : Loader F (σ × List Specifier) × List (LoadRequest F)}
    (h : Steps host.recording x y) (hx : Sound x) : Sound y := by
  induction h with
  | refl => exact hx
  | tail _ hs ih => exact sound_step hs ih

theorem grows_steps {host : Host F σ} {x y : Loader F σ × List (LoadRequest F)}
    (h : Steps host x y) {s : Specifier} {m : LoadedModule F}
    (hx : x.1.registry.get? s = some m) : y.1.registry.get? s = some m := by
  induction h with
  | refl => exact hx
  | tail _ hs ih =>
    cases hs with
    | move _ hm => exact (keeps_move hm).grows s m ih

end

/-! ## What requests come to -/

/-- A loader whose host keeps a record, which is empty so far. -/
def recorded (l : Loader F σ) : Loader F (σ × List Specifier) :=
  { number := l.number
    settings := l.settings
    workshop := l.workshop
    assembly :=
      { registry := l.assembly.registry
        host := (l.assembly.host, [])
        events := l.assembly.events }
    prepared := l.prepared
    events := l.events }

def asked (entries : List (Specifier × Compile.Options)) : List (LoadRequest F) :=
  entries.map fun (entry, options) => { entry, options }

/-- However the steps of requests interleave: the host instantiates no module twice, the slot of a
module does not change once it is filled, and what a request returns is in the slot of its entry. -/
theorem instantiates_once {host : Host F σ} {l : Loader F σ}
    {entries : List (Specifier × Compile.Options)}
    {x y : Loader F (σ × List Specifier) × List (LoadRequest F)}
    (hx : Steps host.recording (recorded l, asked entries) x) (hy : Steps host.recording x y) :
    y.1.assembly.host.2.Nodup ∧
    (∀ s m, x.1.registry.get? s = some m → y.1.registry.get? s = some m) ∧
    ∀ q ∈ y.2, ∀ m, q.stage.result? = some (.ok m) → y.1.registry.get? q.entry = some m := by
  have hstart : Sound (recorded l, asked (F := F) entries) := by
    refine ⟨⟨List.nodup_nil, by simp [recorded]⟩, ?_⟩
    intro q hq m hm
    obtain ⟨_, -, rfl⟩ := List.mem_map.1 hq
    cases hm
  have hs := sound_steps (hx.trans hy) hstart
  refine ⟨hs.tallied.nodup, fun s m hm => grows_steps hy hm, ?_⟩
  intro q hq m hm
  refine hs.returned q hq m ?_
  obtain ⟨entry, options, stage⟩ := q
  cases stage <;> simp only [Stage.result?, Option.some.injEq, reduceCtorEq] at hm
  rw [hm]
  rfl

/-- A loader of two modules that import each other, with a host that takes everything. -/
def pair : Loader Unit Unit where
  workshop :=
    { source := { retrieve := fun _ => .ok "" }
      compiler := fun q =>
        (.ok q.source, some { static := if q.specifier = ⟨"/a"⟩ then [⟨"/b"⟩] else [⟨"/a"⟩] }) }
  assembly := { host := () }

/-- Three requests, each a step on in turn: two of them hold both modules in graphs of their own. -/
def inTurn : Loader Unit (Unit × List Specifier) × List (LoadRequest Unit) :=
  Loader.advanceBy (Host.recording ⟨fun _ _ h => (.ok [], h)⟩)
    (recorded pair, asked [(⟨"/a"⟩, {}), (⟨"/b"⟩, {}), (⟨"/a"⟩, {})])
    ((List.range 9).flatMap fun _ => [0, 1, 2])

theorem pair_is_instantiated_once :
    inTurn.1.assembly.host.2 = [⟨"/b"⟩, ⟨"/a"⟩] ∧
    inTurn.2.map (fun q => q.stage.isFinished) = [true, true, true] ∧
    inTurn.1.assembly.host.2.Nodup ∧
    ∀ q ∈ inTurn.2, ∀ m, q.stage.result? = some (.ok m) →
      inTurn.1.registry.get? q.entry = some m := by
  obtain ⟨hnodup, -, hsame⟩ := instantiates_once .refl
    (steps_advanceBy (Host.recording ⟨fun _ _ h => (.ok [], h)⟩)
      ((List.range 9).flatMap fun _ => [0, 1, 2])
      (recorded pair, asked [(⟨"/a"⟩, {}), (⟨"/b"⟩, {}), (⟨"/a"⟩, {})]))
  exact ⟨by decide +kernel, by decide +kernel, hnodup, hsame⟩

end Interleaving

end ScriptLoader
