import ScriptLoader.Proofs.Module.Chains
import ScriptLoader.Proofs.Module.Slots

/-!
# Reading and calling deferred names

A deferred name is followed from module to module until it comes to an end: a module that is not
there, a name that is not exported, a value or a function. Reading it and calling it are two walks
along the same chain, and both answers are told by its end.

* `Registry.Ending`, `Registry.EndsIn`: the end of a chain, and how a chain comes to it.
* `Registry.Precedes`: what a registry has, a later one has, too.
* `Registry.EndsIn.current`, `Registry.EndsIn.callDeferred`: reading and calling are told by the
  end.
* `Registry.current_deferred`: following by one hop, without a bound on the hops.
* `Registry.EndsIn.later`: a chain that has come to a loaded module's export, or to the lack of one,
  ends there in every later registry.
* `Registry.deferred_is_stable`: reading is stable, and agrees with calling.
-/

namespace ScriptLoader.Registry

variable {F α : Type} {r q : Registry F} {stub : Stub} {name : String} {b : Binding F}

/-! ## Later registries -/

/-- What the slots of `r` hold, they hold in `q`. -/
def Precedes (r q : Registry F) : Prop := ∀ n m, r.held? n = some m → q.held? n = some m

theorem precedes_of_grows (h : r.Grows q) : r.Precedes q := fun _ _ => held?_of_grows h

/-! ## The end of a chain -/

/-- Where a chain of deferred names ends. -/
inductive Ending (F : Type) where
  /-- At a stub whose module is not there. -/
  | waiting (stub : Stub) (name : String)
  /-- At a module that does not export the name. -/
  | absent (m : LoadedModule F) (name : String)
  | value (m : LoadedModule F) (name : String) (v : Json)
  | function (f : F)

/-- What reading answers at an end. -/
def Ending.read : Ending F → Except LoadError (Option (Binding F))
  | .waiting stub name => .error (.circular stub.target stub.requester (.get name))
  | .absent _ _ => .ok none
  | .value _ _ v => .ok (some (.value v))
  | .function f => .ok (some (.function f))

/-- What calling answers at an end. -/
def Ending.called (apply : F → Except LoadError α) : Ending F → Except LoadError α
  | .waiting stub name => .error (.circular stub.target stub.requester (.call name))
  | .absent m name => .error (.evaluation m.specifier s!"'{name}' is not exported")
  | .value m name _ => .error (.evaluation m.specifier s!"'{name}' is not a function")
  | .function f => apply f

/-- The chain that begins at a name behind a stub comes to an end. -/
inductive EndsIn (r : Registry F) : Stub → String → Ending F → Prop where
  | waiting {stub : Stub} {name : String} (ht : r.held? stub.slot = none) :
    EndsIn r stub name (.waiting stub name)
  | absent {stub : Stub} {name : String} {m : LoadedModule F} (ht : r.held? stub.slot = some m)
    (hb : m.get? name = none) : EndsIn r stub name (.absent m name)
  | value {stub : Stub} {name : String} {m : LoadedModule F} {v : Json}
    (ht : r.held? stub.slot = some m) (hb : m.get? name = some (.value v)) :
    EndsIn r stub name (.value m name v)
  | function {stub : Stub} {name : String} {m : LoadedModule F} {f : F}
    (ht : r.held? stub.slot = some m) (hb : m.get? name = some (.function f)) :
    EndsIn r stub name (.function f)
  | hop {stub next : Stub} {name inner : String} {m : LoadedModule F} {e : Ending F}
    (ht : r.held? stub.slot = some m) (hb : m.get? name = some (.deferred next inner)) :
    EndsIn r next inner e → EndsIn r stub name e

/-- A binding from which no chain runs into a circle. -/
def Finite (r : Registry F) (b : Binding F) : Prop :=
  ∀ stub name, b = .deferred stub name → ¬ r.Circular (stub.slot, name)

theorem exists_endsIn (h : ¬ r.Circular (stub.slot, name)) : ∃ e, r.EndsIn stub name e := by
  -- A chain that came to no end within a number of hops would have that many.
  have hends : ∀ hops stub name, ¬ r.LeadsOn hops (stub.slot, name) →
      ∃ e, r.EndsIn stub name e := by
    intro hops
    induction hops with
    | zero => exact fun stub name hno => absurd trivial hno
    | succ hops ih =>
      intro stub name hno
      cases ht : r.held? stub.slot with
      | none => exact ⟨_, .waiting ht⟩
      | some m =>
        cases hb : m.get? name with
        | none => exact ⟨_, .absent ht hb⟩
        | some b =>
          cases b with
          | value v => exact ⟨_, .value ht hb⟩
          | function f => exact ⟨_, .function ht hb⟩
          | deferred next inner =>
            have hhop : r.Hop (stub.slot, name) (next.slot, inner) :=
              ⟨next, by rw [binding?_of_held? ht, hb], rfl⟩
            obtain ⟨e, he⟩ := ih next inner fun hlong => hno ⟨_, hhop, hlong⟩
            exact ⟨e, .hop ht hb he⟩
  exact hends (r.exportCount + 1) stub name fun hlong => h (hlong.circular (Nat.lt_succ_self _))

theorem EndsIn.not_circular {e : Ending F} (h : r.EndsIn stub name e) :
    ¬ r.Circular (stub.slot, name) := by
  induction h with
  | waiting ht =>
    rintro hc
    obtain ⟨y, ⟨next, hb, -⟩, -⟩ := hc.exists_hop
    simp [binding?, ht] at hb
  | absent ht hn | value ht hn | function ht hn =>
    rintro hc
    obtain ⟨y, ⟨next, hb, -⟩, -⟩ := hc.exists_hop
    simp [binding?_of_held? ht, hn] at hb
  | @hop stub next name inner m e ht hb _ ih =>
    have hhop : r.Hop (stub.slot, name) (next.slot, inner) :=
      ⟨next, by rw [binding?_of_held? ht, hb], rfl⟩
    exact fun hc => ih ((circular_iff_of_hop hhop).1 hc)

/-! ## Both walks get to the end -/

/-- What is found within a number of hops is what reading answers at the end of the chain. -/
theorem EndsIn.currentWithin {e : Ending F} (h : r.EndsIn stub name e) (hops : Nat) :
    r.currentWithin hops (.deferred stub name) = none ∨
      r.currentWithin hops (.deferred stub name) = some e.read := by
  induction h generalizing hops with
  | waiting ht =>
    cases hops with
    | zero => exact .inl rfl
    | succ hops =>
      rw [currentWithin_deferred, ht]
      exact .inr rfl
  | absent ht hb | value ht hb | function ht hb =>
    cases hops with
    | zero => exact .inl rfl
    | succ hops =>
      rw [currentWithin_deferred, ht]
      dsimp only
      rw [hb]
      cases hops <;> exact .inr rfl
  | hop ht hb _ ih =>
    cases hops with
    | zero => exact .inl rfl
    | succ hops =>
      rw [currentWithin_deferred, ht]
      dsimp only
      rw [hb]
      exact ih hops

theorem EndsIn.current {e : Ending F} (h : r.EndsIn stub name e) :
    r.current (.deferred stub name) = some e.read := by
  refine (h.currentWithin _).resolve_left fun hnone => ?_
  obtain ⟨_, _, ⟨⟩, hc⟩ := current_eq_none_iff.1 hnone
  exact h.not_circular hc

/-- What a call comes to within a number of hops is what calling answers at the end. -/
theorem EndsIn.callWithin {e : Ending F} (apply : F → Except LoadError α)
    (h : r.EndsIn stub name e) {m : LoadedModule F} (hm : r.held? stub.slot = some m)
    (hops : Nat) : r.callWithin apply hops m name = none ∨
      r.callWithin apply hops m name = some (e.called apply) := by
  induction h generalizing hops m with
  | waiting ht => cases ht.symm.trans hm
  | absent ht hb | value ht hb | function ht hb =>
    cases ht.symm.trans hm
    cases hops with
    | zero => exact .inl rfl
    | succ hops =>
      rw [Registry.callWithin, hb]
      exact .inr rfl
  | @hop stub next name inner m' e ht hb hnext ih =>
    cases ht.symm.trans hm
    cases hops with
    | zero => exact .inl rfl
    | succ hops =>
      rw [callWithin_deferred hb]
      cases hn : r.held? next.slot with
      | none =>
        cases hnext with
        | waiting _ => exact .inr rfl
        | absent ht _ | value ht _ | function ht _ | hop ht _ _ => cases hn.symm.trans ht
      | some n => exact ih hn hops

theorem EndsIn.callDeferred {e : Ending F} (apply : F → Except LoadError α)
    (h : r.EndsIn stub name e) : r.callDeferred apply stub name = some (e.called apply) := by
  unfold Registry.callDeferred resolve
  cases hm : r.held? stub.slot with
  | none =>
    cases h with
    | waiting _ => rfl
    | absent ht _ | value ht _ | function ht _ | hop ht _ _ => cases hm.symm.trans ht
  | some m =>
    refine (h.callWithin apply hm _).resolve_left fun hnone => ?_
    exact h.not_circular ((call_eq_none_iff hm).1 hnone)

/-! ## Reading again -/

/-- An end that is not at a stub without a module is the end in every later registry. -/
theorem EndsIn.later {e : Ending F} (h : r.EndsIn stub name e) (hq : r.Precedes q)
    {x : Option (Binding F)} (hx : e.read = .ok x) : q.EndsIn stub name e := by
  induction h with
  | waiting ht => cases hx
  | absent ht hb => exact .absent (hq _ _ ht) hb
  | value ht hb => exact .value (hq _ _ ht) hb
  | function ht hb => exact .function (hq _ _ ht) hb
  | hop ht hb _ ih => exact .hop (hq _ _ ht) hb (ih hx)

/-- What is found at a name of a reference, when it is read and followed at once. -/
def currentExport (r : Registry F) (ref : ModuleRef F) (name : String) :
    Option (Except LoadError (Option (Binding F))) :=
  match r.export? ref name with
  | none => some (.ok none)
  | some b => r.current b

theorem currentExport_loaded (r : Registry F) (m : LoadedModule F) (name : String) :
    r.currentExport (.loaded m) name =
      match m.get? name with
      | none => some (.ok none)
      | some b => r.current b := rfl

/-- A deferred name whose module is there is followed like what the module exports. -/
theorem current_deferred {m : LoadedModule F} (hm : r.held? stub.slot = some m) :
    r.current (.deferred stub name) = r.currentExport (.loaded m) name := by
  rw [currentExport_loaded]
  cases hb : m.get? name with
  | none => exact (EndsIn.absent hm hb).current
  | some b =>
    cases b with
    | value v => exact (EndsIn.value hm hb).current
    | function f => exact (EndsIn.function hm hb).current
    | deferred next inner =>
      have hhop : r.Hop (stub.slot, name) (next.slot, inner) :=
        ⟨next, by rw [binding?_of_held? hm, hb], rfl⟩
      by_cases hc : r.Circular (next.slot, inner)
      · have hnone : r.current (.deferred stub name) = none :=
          current_eq_none_iff.2 ⟨_, _, rfl, hc.head hhop⟩
        rw [hnone]
        exact (current_eq_none_iff.2 ⟨_, _, rfl, hc⟩).symm
      · obtain ⟨e, he⟩ := exists_endsIn hc
        rw [(EndsIn.hop hm hb he).current]
        exact he.current.symm

theorem currentExport_forwarded {m : LoadedModule F} (hm : r.held? stub.slot = some m) :
    r.currentExport (.forwarded stub) name = r.currentExport (.loaded m) name := by
  simp only [currentExport, export?, hm]

/-- Without a circle, a binding stands for something, and for no deferred name. -/
theorem exists_current (hb : r.Finite b) : ∃ answer, r.current b = some answer ∧
    ∀ stub name, answer ≠ .ok (some (.deferred stub name)) := by
  cases b with
  | value v => exact ⟨_, rfl, by simp⟩
  | function f => exact ⟨_, rfl, by simp⟩
  | deferred stub name =>
    obtain ⟨e, he⟩ := exists_endsIn (hb stub name rfl)
    refine ⟨_, he.current, fun _ _ => ?_⟩
    cases e <;> simp [Ending.read]

theorem current_later (hb : r.Finite b) (hq : r.Precedes q) {x : Option (Binding F)}
    (hx : r.current b = some (.ok x)) : q.current b = some (.ok x) := by
  cases b with
  | value v => exact hx
  | function f => exact hx
  | deferred stub name =>
    obtain ⟨e, he⟩ := exists_endsIn (hb stub name rfl)
    have hread : e.read = .ok x := Option.some.inj (he.current.symm.trans hx)
    rw [(he.later hq hread).current, hread]

/-- A binding from which no chain of deferred names runs into a circle stands for something that
is no deferred name; what it stands for, it stands for in every later registry. A name that is
taken through a stub while its module is not there stands, once it is, for what the name stands for
when it is taken again, through the stub or from the module. The chain of a deferred name comes to
an end, and this end tells both what reading the name answers and what calling it does. -/
theorem deferred_is_stable (hb : r.Finite b) :
    (∃ answer, r.current b = some answer ∧
      ∀ stub name, answer ≠ .ok (some (.deferred stub name))) ∧
    (∀ q x, r.Precedes q → r.current b = some (.ok x) → q.current b = some (.ok x)) ∧
    (∀ stub name, r.held? stub.slot = none → r.export? (.forwarded stub) name = some b →
      ∀ q m, r.Precedes q → q.held? stub.slot = some m →
        q.current b = q.currentExport (.forwarded stub) name ∧
        q.current b = q.currentExport (.loaded m) name) ∧
    (∀ stub name, b = .deferred stub name →
      ∃ e, r.EndsIn stub name e ∧ r.current b = some e.read ∧
        ∀ (α : Type) (apply : F → Except LoadError α),
          r.callDeferred apply stub name = some (e.called apply)) := by
  refine ⟨exists_current hb, fun q x hq => current_later hb hq, ?_, ?_⟩
  · intro stub name ht htaken q m _ hm
    have hdeferred : b = .deferred stub name := by
      simpa [export?, ht] using htaken.symm
    rw [hdeferred, currentExport_forwarded hm]
    exact ⟨current_deferred hm, current_deferred hm⟩
  · rintro stub name rfl
    obtain ⟨e, he⟩ := exists_endsIn (hb stub name rfl)
    exact ⟨e, he, he.current, fun α apply => he.callDeferred apply⟩

/-- The stub that `/b` has for `/a`. -/
def behindB : Stub := ⟨⟨"/a"⟩, ⟨"/b"⟩, ⟨⟨"/a"⟩, 0⟩⟩

/-- The stub that `/c` has for `/b`. -/
def behindC : Stub := ⟨⟨"/b"⟩, ⟨"/c"⟩, ⟨⟨"/b"⟩, 0⟩⟩

/-- `/b` exports `x` of `/a` again, which waits for `/b`. -/
def relay : Registry Unit where
  slots :=
    [(behindB.slot, none),
     (behindC.slot, some ⟨⟨"/b"⟩, .module, [("x", .deferred behindB "x")], ""⟩)]

/-- `/a` as it is loaded at last. -/
def relayed : LoadedModule Unit := ⟨⟨"/a"⟩, .module, [("x", .value (.number (.int 7)))], ""⟩

theorem relayed_name_is_stable :
    relay.Finite (.deferred behindC "x") ∧ relay.Finite (.deferred behindB "x") ∧
    relay.callDeferred (fun _ => .ok ()) behindC "x" =
      some (.error (.circular ⟨"/a"⟩ ⟨"/b"⟩ (.call "x"))) ∧
    (relay.fill ⟨"/a"⟩ relayed).current (.deferred behindB "x") =
      (relay.fill ⟨"/a"⟩ relayed).currentExport (.loaded relayed) "x" := by
  have hnear : relay.EndsIn behindB "x" (.waiting behindB "x") := .waiting rfl
  have hfar : relay.EndsIn behindC "x" (.waiting behindB "x") := .hop rfl rfl hnear
  have hb : relay.Finite (.deferred behindC "x") := by
    rintro _ _ ⟨⟩
    exact hfar.not_circular
  have ha : relay.Finite (.deferred behindB "x") := by
    rintro _ _ ⟨⟩
    exact hnear.not_circular
  obtain ⟨-, -, -, hends⟩ := deferred_is_stable hb
  obtain ⟨e, -, hread, hcalled⟩ := hends _ _ rfl
  obtain ⟨-, -, hagain, -⟩ := deferred_is_stable ha
  have hlater := precedes_of_grows (.fill ⟨"/a"⟩ relayed (.refl (r := relay)))
  refine ⟨hb, ha, ?_, (hagain behindB "x" rfl rfl _ relayed hlater rfl).2⟩
  have hcircular : e.read = .error (.circular ⟨"/a"⟩ ⟨"/b"⟩ (.get "x")) :=
    Option.some.inj (hread.symm.trans rfl)
  rw [hcalled]
  cases e with
  | waiting stub name =>
    obtain ⟨target, requester, slot⟩ := stub
    cases hcircular
    rfl
  | absent m name | value m name v | function f => cases hcircular

end ScriptLoader.Registry
