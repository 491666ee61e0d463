import Mathlib.Data.List.Perm.Subperm
import Mathlib.Logic.Relation
import ScriptLoader.Module.Registry

/-!
# Chains of deferred names

An export that is a deferred name stands for an export of another module, which may again be a
deferred name. Following such names is a walk on the exports of a registry. There are finitely many
of them, so a walk ends unless it runs into a circle; in a circle no number of hops suffices.

* `Registry.Hop`, `Registry.Circular`: one export stands for another; a chain from an export runs
  into a circle.
* `Registry.current_eq_none_iff`, `Registry.call_eq_none_iff`, `Registry.callDeferred_eq_none_iff`:
  the number of hops that following allows decides nothing: without an answer there is a circle.
-/

namespace ScriptLoader.Registry

variable {F α : Type} {r : Registry F} {x y : Slot × String}

/-- What the module in a slot exports under a name. -/
def binding? (r : Registry F) (x : Slot × String) : Option (Binding F) :=
  (r.held? x.1).bind (·.get? x.2)

/-- The export `x` is a deferred name, the one of `y`. -/
def Hop (r : Registry F) (x y : Slot × String) : Prop :=
  ∃ stub, r.binding? x = some (.deferred stub y.2) ∧ stub.slot = y.1

/-- The chain from `x` runs into a circle. -/
def Circular (r : Registry F) (x : Slot × String) : Prop :=
  ∃ y, Relation.ReflTransGen r.Hop x y ∧ Relation.TransGen r.Hop y y

/-- The chain from `x` has that many hops, or more. -/
def LeadsOn (r : Registry F) : Nat → Slot × String → Prop
  | 0, _ => True
  | hops + 1, x => ∃ y, r.Hop x y ∧ LeadsOn r hops y

theorem binding?_of_held? {s : Slot} {m : LoadedModule F} (hm : r.held? s = some m)
    (name : String) : r.binding? (s, name) = m.get? name := by
  simp [binding?, hm]

/-! ## Circles -/

theorem Circular.exists_hop (h : r.Circular x) : ∃ y, r.Hop x y ∧ r.Circular y := by
  obtain ⟨z, hxz, hz⟩ := h
  rcases hxz.cases_head with rfl | ⟨y, hxy, hyz⟩
  · obtain ⟨y, hxy, hyx⟩ := Relation.TransGen.head'_iff.1 hz
    exact ⟨y, hxy, x, hyx, hz⟩
  · exact ⟨y, hxy, z, hyz, hz⟩

theorem Circular.head (hxy : r.Hop x y) (h : r.Circular y) : r.Circular x := by
  obtain ⟨z, hyz, hz⟩ := h
  exact ⟨z, .head hxy hyz, hz⟩

theorem Hop.unique {z : Slot × String} (hy : r.Hop x y) (hz : r.Hop x z) : y = z := by
  obtain ⟨stub, hx, hstub⟩ := hy
  obtain ⟨other, hx', hother⟩ := hz
  rw [hx] at hx'
  obtain ⟨rfl, hname⟩ : stub = other ∧ y.2 = z.2 := by simpa using hx'
  exact Prod.ext (hstub.symm.trans hother) hname

theorem circular_iff_of_hop (hxy : r.Hop x y) : r.Circular x ↔ r.Circular y := by
  refine ⟨fun h => ?_, .head hxy⟩
  obtain ⟨z, hxz, hz⟩ := h.exists_hop
  rwa [hxy.unique hxz]

theorem Circular.leadsOn (h : r.Circular x) (hops : Nat) : r.LeadsOn hops x := by
  induction hops generalizing x with
  | zero => trivial
  | succ hops ih =>
    obtain ⟨y, hxy, hy⟩ := h.exists_hop
    exact ⟨y, hxy, ih hy⟩

/-! ## The exports of a registry -/

/-- The exports of all loaded modules. -/
def allExports (r : Registry F) : List (Slot × String) :=
  r.slots.flatMap fun (s, m) => (m.map fun m => m.exports.map fun (name, _) => (s, name)).getD []

theorem length_allExports (r : Registry F) : r.allExports.length = r.exportCount := by
  have hfold : ∀ (slots : Keyed Slot (Option (LoadedModule F))) (n : Nat),
      slots.foldl (fun n (_, m) => n + (m.map fun m => m.exports.length).getD 0) n =
        n + (allExports ⟨slots⟩).length := by
    intro slots
    induction slots with
    | nil => simp [allExports]
    | cons slot slots ih =>
      obtain ⟨s, _ | m⟩ := slot
      · simpa [allExports] using ih
      · intro n
        have := ih (n + m.exports.length)
        simp only [allExports] at this ⊢
        simp [this, Nat.add_assoc]
  have h := hfold r.slots 0
  rw [Nat.zero_add] at h
  exact h.symm

theorem mem_allExports {b : Binding F} (h : r.binding? x = some b) : x ∈ r.allExports := by
  obtain ⟨m, hm, hb⟩ := Option.bind_eq_some_iff.1 h
  have hslot : (x.1, some m) ∈ r.slots := Keyed.mem_of_get? (Option.join_eq_some_iff.1 hm)
  have hname : (x.2, b) ∈ m.exports := Keyed.mem_of_get? hb
  refine List.mem_flatMap.2 ⟨_, hslot, ?_⟩
  exact List.mem_map.2 ⟨_, hname, rfl⟩

/-- A chain that has passed through `seen` already, and has more hops than there are exports left,
runs into a circle. -/
theorem LeadsOn.circular_of_seen {hops : Nat} {seen : List (Slot × String)}
    (hnodup : seen.Nodup) (hsub : seen ⊆ r.allExports)
    (hseen : ∀ z ∈ seen, Relation.TransGen r.Hop z x)
    (hlt : r.allExports.length < hops + seen.length) (h : r.LeadsOn hops x) : r.Circular x := by
  induction hops generalizing x seen with
  | zero =>
    have hle := (List.subperm_of_subset hnodup hsub).length_le
    omega
  | succ hops ih =>
    obtain ⟨y, hxy, hy⟩ := h
    by_cases hx : x ∈ seen
    · exact ⟨x, .refl, hseen x hx⟩
    · have hmem : x ∈ r.allExports := hxy.elim fun _ h => mem_allExports h.1
      refine Circular.head hxy (ih (List.nodup_cons.2 ⟨hx, hnodup⟩)
        (List.cons_subset.2 ⟨hmem, hsub⟩) ?_ ?_ hy)
      · intro z hz
        rcases List.mem_cons.1 hz with rfl | hz
        · exact .single hxy
        · exact (hseen z hz).tail hxy
      · rw [List.length_cons]
        omega

/-- A chain with more hops than there are exports runs into a circle. -/
theorem LeadsOn.circular {hops : Nat} (hlt : r.exportCount < hops) (h : r.LeadsOn hops x) :
    r.Circular x := by
  refine h.circular_of_seen List.nodup_nil (List.nil_subset _) (by simp) ?_
  rwa [length_allExports]

/-! ## Following -/

theorem currentWithin_deferred (hops : Nat) (stub : Stub) (name : String) :
    r.currentWithin (hops + 1) (.deferred stub name) =
      match r.held? stub.slot with
      | none => some (.error (stub.circular (.get name)))
      | some m =>
        match m.get? name with
        | none => some (.ok none)
        | some b => r.currentWithin hops b := by
  simp only [currentWithin, resolve]
  cases r.held? stub.slot <;> rfl

theorem currentWithin_eq_none_iff {hops : Nat} {stub : Stub} {name : String} :
    r.currentWithin hops (.deferred stub name) = none ↔ r.LeadsOn hops (stub.slot, name) := by
  induction hops generalizing stub name with
  | zero => simp [currentWithin, LeadsOn]
  | succ hops ih =>
    rw [currentWithin_deferred]
    cases hm : r.held? stub.slot with
    | none => simp [LeadsOn, Hop, binding?, hm]
    | some m =>
      have hb := binding?_of_held? hm name
      dsimp only
      cases hn : m.get? name with
      | none => simp [LeadsOn, Hop, hb, hn]
      | some b =>
        rw [hn] at hb
        cases b with
        | value v => simp [currentWithin, LeadsOn, Hop, hb]
        | function f => simp [currentWithin, LeadsOn, Hop, hb]
        | deferred next inner =>
          have hhop : r.Hop (stub.slot, name) (next.slot, inner) := ⟨next, hb, rfl⟩
          refine ih.trans ⟨fun h => ⟨_, hhop, h⟩, ?_⟩
          rintro ⟨y, hy, h⟩
          rwa [hhop.unique hy]

/-- Following a binding does not end exactly if it is a deferred name whose chain runs into a
circle. -/
theorem current_eq_none_iff {b : Binding F} :
    r.current b = none ↔
      ∃ stub name, b = .deferred stub name ∧ r.Circular (stub.slot, name) := by
  unfold current
  constructor
  · intro h
    cases b with
    | value v => cases h
    | function f => cases h
    | deferred stub name =>
      exact ⟨stub, name, rfl, (currentWithin_eq_none_iff.1 h).circular (Nat.lt_succ_self _)⟩
  · rintro ⟨stub, name, rfl, h⟩
    exact currentWithin_eq_none_iff.2 (h.leadsOn _)

/-- A binding that is followed without an answer has none with any number of hops. -/
theorem current_eq_none_iff_forall {b : Binding F} :
    r.current b = none ↔ ∀ hops, r.currentWithin hops b = none := by
  refine ⟨fun h hops => ?_, fun h => h _⟩
  obtain ⟨stub, name, rfl, hc⟩ := current_eq_none_iff.1 h
  exact currentWithin_eq_none_iff.2 (hc.leadsOn hops)

section

variable {apply : F → Except LoadError α} {m : LoadedModule F} {s : Slot} {name : String}

/-- A call that is passed on from one module to the next is passed on along the chain. -/
theorem callWithin_deferred {stub : Stub} {inner : String}
    (hb : m.get? name = some (.deferred stub inner)) (hops : Nat) :
    r.callWithin apply (hops + 1) m name =
      match r.held? stub.slot with
      | none => some (.error (stub.circular (.call inner)))
      | some n => r.callWithin apply hops n inner := by
  simp only [callWithin, hb, resolve]
  cases r.held? stub.slot <;> rfl

theorem leadsOn_of_callWithin {hops : Nat} (hm : r.held? s = some m)
    (h : r.callWithin apply hops m name = none) : r.LeadsOn hops (s, name) := by
  induction hops generalizing s m name with
  | zero => trivial
  | succ hops ih =>
    have hb := binding?_of_held? hm name
    cases hn : m.get? name with
    | none => simp [callWithin, hn] at h
    | some b =>
      rw [hn] at hb
      cases b with
      | value v => simp [callWithin, hn] at h
      | function f => simp [callWithin, hn] at h
      | deferred stub inner =>
        rw [callWithin_deferred hn] at h
        cases ht : r.held? stub.slot with
        | none => simp [ht] at h
        | some n =>
          rw [ht] at h
          exact ⟨(stub.slot, inner), ⟨stub, hb, rfl⟩, ih ht h⟩

theorem Circular.callWithin_eq_none (hm : r.held? s = some m) (h : r.Circular (s, name))
    (hops : Nat) : r.callWithin apply hops m name = none := by
  induction hops generalizing s m name with
  | zero => rfl
  | succ hops ih =>
    obtain ⟨⟨t, inner⟩, ⟨stub, hb, rfl⟩, hc⟩ := h.exists_hop
    rw [binding?_of_held? hm] at hb
    obtain ⟨_, ⟨_, ht, -⟩, -⟩ := hc.exists_hop
    obtain ⟨n, hn, -⟩ := Option.bind_eq_some_iff.1 ht
    rw [callWithin_deferred hb, hn]
    exact ih hn hc

/-- Calling an export of a loaded module does not end exactly if its chain runs into a circle. -/
theorem call_eq_none_iff (hm : r.held? s = some m) :
    r.call apply m name = none ↔ r.Circular (s, name) :=
  ⟨fun h => (leadsOn_of_callWithin hm h).circular (by omega), fun h => h.callWithin_eq_none hm _⟩

/-- Calling a deferred name does not end exactly if its chain runs into a circle. -/
theorem callDeferred_eq_none_iff {stub : Stub} :
    r.callDeferred apply stub name = none ↔ r.Circular (stub.slot, name) := by
  unfold callDeferred resolve
  cases ht : r.held? stub.slot with
  | some n => exact call_eq_none_iff ht
  | none =>
    refine ⟨fun h => by simp at h, fun h => ?_⟩
    obtain ⟨_, ⟨_, hb, -⟩, -⟩ := h.exists_hop
    simp [binding?, ht] at hb

end

end ScriptLoader.Registry
