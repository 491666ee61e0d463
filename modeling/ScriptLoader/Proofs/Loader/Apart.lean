import ScriptLoader.Proofs.Assembly.Stubs
import ScriptLoader.Proofs.Loader.Requests

/-!
# Loaded or prepared

A loader has a module at one place: it is loaded or prepared. Between its assembly and the keeping
of what is left over, a request may have loaded modules of its graph that are still prepared; no
other request assembles meanwhile.

* `Loader.UnderWay`: what every step of every request preserves (`Loader.underWay_nextStage`),
  whatever the order of the steps is.
* `Loader.Reached`: the loaders that requests lead to, one after the other or several at a time.
* `Loader.apart_of_reached`: none of them has a module at both places.
-/

namespace ScriptLoader

variable {F σ : Type}

/-- A module that is new behind loading has a record in the graph. -/
theorem Assembly.contains_of_new {host : Host F σ} {importer : Importer} {g : Graph}
    {entry : Specifier} {a : Assembly F σ} {s : Specifier} (hnew : a.registry.isLoaded s = false)
    (hs : (load host importer g entry a).2.registry.isLoaded s = true) : g.contains s = true := by
  let b : Assembly F (σ × List (HostCall F)) :=
    { registry := a.registry, host := (a.host, []), events := a.events }
  have hload : Outcome.unobserved (load host.observed importer g entry b) =
      load host importer g entry a := load_observed g entry b
  have hb : (load host.observed importer g entry b).2.registry.isLoaded s = true := by
    have hregistry : (load host.observed importer g entry b).2.registry =
        (load host importer g entry a).2.registry := congrArg (fun x => x.2.registry) hload
    rwa [hregistry]
  obtain ⟨calls, hcalls⟩ := exists_calls host importer g entry b
  obtain ⟨-, -, -, r, -, -, hr⟩ := exists_call_of_new hcalls hnew hb
  rw [Graph.contains, hr]
  rfl

namespace Stage

/-- The graph of a request whose code is there and not kept yet. -/
def coded? : Stage F → Option Graph
  | compiled g | assembled g _ => some g
  | _ => none

/-- The graph of a request that was assembled, while what is left over is not kept yet. -/
def assembled? : Stage F → Option Graph
  | assembled g _ => some g
  | _ => none

theorem coded?_of_assembled? {st : Stage F} (h : st.coded? = none) : st.assembled? = none := by
  cases st <;> simp_all [coded?, assembled?]

end Stage

namespace Loader

variable {host : Host F σ} {l : Loader F σ} {options : Compile.Options} {entry : Specifier}
  {g : Graph}

/-- The code of every prepared module is there. -/
def Coded (l : Loader F σ) : Prop :=
  ∀ s p, l.prepared.get? s = some p → ∃ code, p.record.outcome = .ok code

/-- No module is loaded and prepared, apart from some modules. -/
def ApartBut (held : Specifier → Prop) (l : Loader F σ) : Prop :=
  ∀ s, l.registry.isLoaded s = true → l.prepared.get? s = none ∨ held s

/-! ## What steps do -/

theorem coded_retain (hl : l.Coded) (hg : g.Ready) : (l.retain options g).Coded := by
  intro s p hp
  rcases get?_retain l options g s with ⟨-, hs⟩ | ⟨-, hs⟩ | ⟨hr, -, -, hs⟩ <;> rw [hp] at hs
  · exact hl s p hs.symm
  · cases hs
  · cases hs
    exact hg _ hr

theorem ready_of_coded (hl : l.Coded) (hg : g.awaitCode.2 = .ok ()) :
    (l.assembled options entry g).Ready := by
  have hready := Graph.awaitCode_ok_iff.1 hg
  intro r hr
  rcases mem_records_adopt hr with hr | ⟨s, hs⟩
  · exact (Graph.readyCode?_of_awaitCode hready hr).imp fun _ hc => hc.1
  · exact hl s _ (preparedRecord?_eq_some_iff.1 hs)

theorem apartBut_assemble {held : Specifier → Prop} (h : l.ApartBut held) (host : Host F σ)
    (g : Graph) (entry : Specifier) :
    (l.assemble host g entry).2.ApartBut fun s => held s ∨ g.contains s = true := by
  intro s hs
  cases hold : l.registry.isLoaded s with
  | true => exact (h s hold).imp_right Or.inl
  | false => exact Or.inr (Or.inr (Assembly.contains_of_new hold hs))

theorem apartBut_retain {held : Specifier → Prop}
    (h : l.ApartBut fun s => held s ∨ g.contains s = true) :
    (l.retain options g).ApartBut held := by
  intro s hs
  have hl : l.registry.isLoaded s = true := by
    rwa [registry, assembly_retain] at hs
  rcases get?_retain l options g s with ⟨hout, hk⟩ | ⟨-, hk⟩ | ⟨-, -, hn, -⟩
  · rcases h s hl with hp | hp | hp
    · exact Or.inl (hk.trans hp)
    · exact Or.inr hp
    · exact absurd (Graph.contains_iff.1 hp) hout
  · exact Or.inl hk
  · rw [hl] at hn
    cases hn

/-! ## Several requests -/

/-- A request was assembled and has the module in its graph. -/
def Held (qs : List (LoadRequest F)) (s : Specifier) : Prop :=
  ∃ q ∈ qs, ∃ g, q.stage.assembled? = some g ∧ g.contains s = true

/-- What holds while requests are under way. -/
structure UnderWay (l : Loader F σ) (qs : List (LoadRequest F)) : Prop where
  coded : l.Coded
  ready : ∀ q ∈ qs, ∀ g, q.stage.coded? = some g → g.Ready
  apart : l.ApartBut (Held qs)

theorem UnderWay.of_eq {k : Loader F σ} {qs : List (LoadRequest F)} (h : l.UnderWay qs)
    (hp : k.prepared = l.prepared) (ha : k.assembly = l.assembly) : k.UnderWay qs := by
  have hr : k.registry = l.registry := congrArg Assembly.registry ha
  refine ⟨?_, h.ready, ?_⟩
  · unfold Coded
    rw [hp]
    exact h.coded
  · unfold ApartBut
    rw [hp, hr]
    exact h.apart

/-- Requests that have no code yet, or no more, may start or leave. -/
theorem UnderWay.of_coded?_eq_none {qs rs : List (LoadRequest F)} (h : l.UnderWay qs)
    (hqs : ∀ q ∈ qs, q.stage.coded? = none) (hrs : ∀ q ∈ rs, q.stage.coded? = none) :
    l.UnderWay rs := by
  refine ⟨h.coded, ?_, ?_⟩
  · intro q hq g hg
    rw [hrs q hq] at hg
    cases hg
  · intro s hs
    refine (h.apart s hs).imp_right ?_
    rintro ⟨q, hq, g, hg, -⟩
    rw [Stage.coded?_of_assembled? (hqs q hq)] at hg
    cases hg

section

variable {qs : List (LoadRequest F)} {i : Nat} {q : LoadRequest F} {next : Stage F} {s : Specifier}

theorem mem_or_mem_set {α : Type} {xs : List α} {i : Nat} {x y : α} (hi : xs[i]? = some x) (z : α)
    (hy : y ∈ xs) : y = x ∨ y ∈ xs.set i z := by
  obtain ⟨j, hj⟩ := List.mem_iff_getElem?.1 hy
  by_cases hij : i = j
  · subst hij
    rw [hi] at hj
    exact Or.inl (Option.some.inj hj).symm
  · exact Or.inr (List.mem_iff_getElem?.2 ⟨j, by rw [List.getElem?_set_ne hij, hj]⟩)

/-- What is held when one request moves on is held before, unless it is for that request. -/
theorem Held.set (h : Held qs s) (hq : qs[i]? = some q) (next : Stage F) :
    Held (qs.set i { q with stage := next }) s ∨
      ∃ g, q.stage.assembled? = some g ∧ g.contains s = true := by
  obtain ⟨p, hp, g, hg, hs⟩ := h
  rcases mem_or_mem_set hq _ hp with rfl | hp
  · exact Or.inr ⟨g, hg, hs⟩
  · exact Or.inl ⟨p, hp, g, hg, hs⟩

theorem UnderWay.set {k : Loader F σ} (h : l.UnderWay qs) (hk : k.Coded)
    (hnext : ∀ g, next.coded? = some g → g.Ready)
    (ha : k.ApartBut (Held (qs.set i { q with stage := next }))) :
    k.UnderWay (qs.set i { q with stage := next }) := by
  refine ⟨hk, ?_, ha⟩
  intro p hp g hg
  rcases List.mem_or_eq_of_mem_set hp with hp | rfl
  · exact h.ready p hp g hg
  · exact hnext g hg

/-- A step that changes neither what is loaded nor what is prepared. -/
theorem UnderWay.aside {k : Loader F σ} (h : l.UnderWay qs) (hq : qs[i]? = some q)
    (hp : k.prepared = l.prepared) (ha : k.assembly = l.assembly) (hst : q.stage.assembled? = none)
    (hnext : ∀ g, next.coded? = some g → g.Ready) :
    k.UnderWay (qs.set i { q with stage := next }) := by
  have hk := h.of_eq hp ha
  refine h.set hk.coded hnext fun s hs => (hk.apart s hs).imp_right fun hheld => ?_
  rcases hheld.set hq next with hheld | ⟨g, hg, -⟩
  · exact hheld
  · rw [hst] at hg
    cases hg

/-- A step of one request preserves what holds while requests are under way. -/
theorem underWay_nextStage (host : Host F σ) (h : l.UnderWay qs) (hq : qs[i]? = some q) :
    (l.nextStage host q.entry q.options q.stage).2.UnderWay
      (qs.set i { q with stage := (l.nextStage host q.entry q.options q.stage).1 }) := by
  have hmem : q ∈ qs := List.mem_of_getElem? hq
  cases hst : q.stage with
  | starting =>
    unfold nextStage
    dsimp only
    split
    · exact h.aside hq rfl rfl (by rw [hst]; rfl) (by rintro _ ⟨⟩)
    · exact h.aside hq rfl rfl (by rw [hst]; rfl) (by rintro _ ⟨⟩)
  | resolving r =>
    unfold nextStage
    dsimp only
    split <;> exact h.aside hq rfl rfl (by rw [hst]; rfl) (by rintro _ ⟨⟩)
  | resolved g =>
    unfold nextStage
    dsimp only
    split
    · next waited w hcode =>
      refine h.aside hq rfl rfl (by rw [hst]; rfl) ?_
      rintro _ ⟨⟩
      have hwait : g.awaitCode = (waited, .ok ()) := congrArg (·.1) hcode
      have hready : (l.assembled q.options q.entry g).Ready :=
        ready_of_coded h.coded (by rw [hwait])
      rwa [assembled, hwait] at hready
    · exact h.aside hq rfl rfl (by rw [hst]; rfl) (by rintro _ ⟨⟩)
  | compiled g =>
    have hg : g.Ready := h.ready q hmem g (by rw [hst]; rfl)
    have hi : i < qs.length := (List.getElem?_eq_some_iff.1 hq).1
    refine h.set h.coded (by rintro _ ⟨⟩; exact hg) fun s hs => ?_
    refine (apartBut_assemble h.apart host g q.entry s hs).imp_right ?_
    rintro (hheld | hc)
    · rcases hheld.set hq (.assembled g (l.assemble host g q.entry).1) with hheld | ⟨g', hg', -⟩
      · exact hheld
      · rw [hst] at hg'
        cases hg'
    · exact ⟨_, List.mem_set hi _, g, rfl, hc⟩
  | assembled g result =>
    have hg : g.Ready := h.ready q hmem g (by rw [hst]; rfl)
    -- Whatever the request comes to, its graph is not held any more.
    have hkept : ∀ next : Stage F, (l.retain q.options g).ApartBut
        (Held (qs.set i { q with stage := next })) := fun next => by
      refine apartBut_retain fun s hs => (h.apart s hs).imp_right fun hheld => ?_
      refine (hheld.set hq next).imp_right ?_
      rintro ⟨g', hg', hc⟩
      rw [hst] at hg'
      cases hg'
      exact hc
    unfold nextStage
    dsimp only
    split
    · exact h.set (coded_retain h.coded hg) (by rintro _ ⟨⟩) (hkept _)
    · exact h.set (coded_retain h.coded hg) (by rintro _ ⟨⟩) (hkept _)
  | failing e => exact h.aside hq rfl rfl (by rw [hst]; rfl) (by rintro _ ⟨⟩)
  | finished result => exact h.aside hq rfl rfl (by rw [hst]; rfl) (by rintro _ ⟨⟩)

theorem underWay_advanceAt (host : Host F σ) (h : l.UnderWay qs) (i : Nat) :
    (advanceAt host (l, qs) i).1.UnderWay (advanceAt host (l, qs) i).2 := by
  unfold advanceAt
  dsimp only
  split
  · exact h
  · next q hq =>
    split
    · exact h
    · exact underWay_nextStage host h hq

theorem underWay_advanceBy (host : Host F σ) {l : Loader F σ} {qs : List (LoadRequest F)}
    (h : l.UnderWay qs) (order : List Nat) :
    (advanceBy host (l, qs) order).1.UnderWay (advanceBy host (l, qs) order).2 := by
  unfold advanceBy
  induction order generalizing l qs with
  | nil => exact h
  | cons i order ih => exact ih (underWay_advanceAt host h i)

end

/-! ## One request -/

theorem underWay_runFrom (host : Host F σ) {l : Loader F σ} {st : Stage F}
    (h : l.UnderWay [⟨entry, options, st⟩]) :
    (l.runFrom host entry options st).2.UnderWay [] := by
  fun_induction runFrom host entry options l st with
  | case1 l st result hr =>
    cases st <;> simp only [Stage.result?, reduceCtorEq] at hr
    exact h.of_coded?_eq_none (by rintro _ hq; cases List.mem_singleton.1 hq; rfl) (by simp)
  | case2 l st _ ih => exact ih (underWay_nextStage host (i := 0) h rfl)

theorem underWay_serve (host : Host F σ) (h : l.UnderWay []) (call : Call) :
    (l.serve host call).2.UnderWay [] := by
  rcases serve_cases host l call with ⟨_, _, -, hs⟩ | ⟨entry, events, -, hs⟩
  · rwa [hs]
  · rw [hs]
    have hevents : ({ l with events } : Loader F σ).UnderWay [] := h.of_eq rfl rfl
    exact underWay_runFrom host (hevents.of_coded?_eq_none (by simp)
      (by rintro _ hq; cases List.mem_singleton.1 hq; rfl))

/-! ## What requests lead to -/

/-- The loaders that requests lead to, while none of them is under way. -/
inductive Reached (host : Host F σ) : Loader F σ → Prop where
  | new {l : Loader F σ} : l.prepared = [] → Reached host l
  /-- Sources are changed, stored compiles are changed or forgotten, or a graph is resolved. -/
  | supplied {l : Loader F σ} (workshop : Workshop) : Reached host l →
    Reached host { l with workshop }
  | served {l : Loader F σ} (call : Call) : Reached host l → Reached host (l.serve host call).2
  /-- Several requests are taken to their ends, in any order of their steps. -/
  | together {l : Loader F σ} {qs : List (LoadRequest F)} {order : List Nat} : Reached host l →
    (∀ q ∈ qs, q.stage = .starting ∨ q.stage.isFinished = true) →
    (∀ q ∈ (advanceBy host (l, qs) order).2, q.stage.isFinished = true) →
    Reached host (advanceBy host (l, qs) order).1

theorem underWay_of_reached (h : Reached host l) : l.UnderWay [] := by
  have hfinished : ∀ st : Stage F, st.isFinished = true → st.coded? = none := by
    intro st hst
    cases st <;> simp_all [Stage.isFinished, Stage.coded?]
  induction h with
  | new hl => exact ⟨by simp [Coded, hl, Keyed.get?], by simp, by simp [ApartBut, hl, Keyed.get?]⟩
  | supplied workshop _ ih => exact ih.of_eq rfl rfl
  | served call _ ih => exact underWay_serve host ih call
  | together _ hstart hend ih =>
    refine (underWay_advanceBy host (ih.of_coded?_eq_none (by simp) ?_) _).of_coded?_eq_none
      (fun q hq => hfinished _ (hend q hq)) (by simp)
    intro q hq
    rcases hstart q hq with hst | hst
    · rw [hst]
      rfl
    · exact hfinished _ hst

theorem UnderWay.apart_of_nil (h : l.UnderWay []) {s : Specifier}
    (hs : l.registry.isLoaded s = true) : l.prepared.get? s = none := by
  rcases h.apart s hs with hn | ⟨q, hq, -⟩
  · exact hn
  · cases hq

/-- No loader that requests lead to has a module loaded and prepared. -/
theorem apart_of_reached (h : Reached host l) (s : Specifier) :
    ¬ (l.registry.isLoaded s = true ∧ (l.prepared.get? s).isSome = true) := by
  rintro ⟨hs, hp⟩
  rw [(underWay_of_reached h).apart_of_nil hs] at hp
  cases hp

end Loader

end ScriptLoader
