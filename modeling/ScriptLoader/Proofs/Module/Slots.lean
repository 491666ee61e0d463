import ScriptLoader.Module.Registry

/-!
# Slots of a registry

A registry grows by slots that are given to specifiers and by modules that fill them. A specifier
keeps the slot that it was given, so whoever holds that slot sees the module of the specifier as
soon as it is there.

* `Registry.Grows`: what a registry may become.
* `Registry.slot?_of_grows`, `Registry.held?_of_grows`: slots are not replaced, and keep what they
  hold.
* `Registry.Serves`: what a stub finds in its slot is what the registry has for its target. A stub
  that was given the slot of its target is served so, whatever the registry becomes
  (`Registry.serves_of_grows`).
-/

namespace ScriptLoader.Registry

variable {F : Type} {r q : Registry F} {s t : Specifier} {n : Slot}

theorem slot_of_slot? (h : r.slot? s = some n) : r.slot s = n := by
  rw [slot, h, Option.getD_some]

theorem slot?_allocate_self (r : Registry F) (s : Specifier) :
    (r.allocate s).slot? s = some (r.slot s) := by
  rw [slot?_allocate, if_pos rfl]

/-- A specifier that has a slot is not given another one. -/
theorem allocate_of_slot? (h : r.slot? s = some n) : r.allocate s = r := by
  rw [allocate, h, Option.isSome_some, if_pos rfl]

/-! ## Growing -/

/-- What becomes of a registry when specifiers are given slots and slots are filled. -/
inductive Grows (r : Registry F) : Registry F → Prop where
  | refl : Grows r r
  | allocate {q : Registry F} (s : Specifier) : Grows r q → Grows r (q.allocate s)
  | fill {q : Registry F} (s : Specifier) (m : LoadedModule F) : Grows r q → Grows r (q.fill s m)

theorem Grows.trans {p : Registry F} (h : r.Grows q) (k : q.Grows p) : r.Grows p := by
  induction k with
  | refl => exact h
  | allocate s _ ih => exact .allocate s ih
  | fill s m _ ih => exact .fill s m ih

/-- The slot of a specifier is the same before and behind, made or to be made. -/
theorem slot_of_grows (h : r.Grows q) (s : Specifier) : q.slot s = r.slot s := by
  induction h with
  | refl => rfl
  | allocate t _ ih => rw [slot_allocate, ih]
  | fill t m _ ih => rw [slot_fill, ih]

/-- A specifier keeps its slot. -/
theorem slot?_of_grows (h : r.Grows q) (hs : r.slot? s = some n) : q.slot? s = some n := by
  induction h with
  | refl => exact hs
  | allocate t _ ih =>
    rw [slot?_allocate]
    split
    · next hst => rw [← hst, slot_of_slot? ih]
    · exact ih
  | fill t m _ ih =>
    rw [slot?_fill]
    split
    · next hst => rw [← hst, slot_of_slot? ih]
    · exact ih

/-- A slot keeps what it holds. -/
theorem held?_of_grows {m : LoadedModule F} (h : r.Grows q) (hn : r.held? n = some m) :
    q.held? n = some m := by
  induction h with
  | refl => exact hn
  | allocate t _ ih => rw [held?_allocate, ih]
  | fill t k _ ih =>
    rw [held?_fill, ih]
    split <;> rfl

/-- A module that is there stays. -/
theorem get?_of_grows {m : LoadedModule F} (h : r.Grows q) (hs : r.get? s = some m) :
    q.get? s = some m := by
  rw [get?_eq_held?] at hs ⊢
  rw [slot_of_grows h]
  exact held?_of_grows h hs

/-! ## Stubs -/

/-- A stub holds the slot of its target, and answers as the registry does for the target. -/
structure Serves (r : Registry F) (stub : Stub) : Prop where
  slot? : r.slot? stub.target = some stub.slot
  held? : r.held? stub.slot = r.get? stub.target
  isReady : r.isReady stub = r.isLoaded stub.target
  loaded? : r.loaded? (.forwarded stub) = r.get? stub.target
  moduleOf : ∀ access, r.moduleOf (.forwarded stub) access =
    match r.get? stub.target with
    | some m => .ok m
    | none => .error (.circular stub.target stub.requester access)
  export? : ∀ name, r.export? (.forwarded stub) name =
    match r.get? stub.target with
    | some m => m.get? name
    | none => some (.deferred stub name)
  exportsOf : r.exportsOf (.forwarded stub) =
    match r.get? stub.target with
    | some m => .ok m.exports
    | none => .error (.circular stub.target stub.requester .exports)
  callRef : ∀ (α : Type) (apply : F → Except LoadError α) (name : String),
    r.callRef apply (.forwarded stub) name =
      match r.get? stub.target with
      | some m => r.call apply m name
      | none => some (.error (.circular stub.target stub.requester (.call name)))

/-- A stub is served by the slot that its target has. -/
theorem serves_of_slot? {stub : Stub} (h : r.slot? stub.target = some stub.slot) :
    r.Serves stub := by
  have hheld : r.held? stub.slot = r.get? stub.target := by rw [get?, h, Option.bind_some]
  have hmodule : ∀ access, r.moduleOf (.forwarded stub) access =
      match r.get? stub.target with
      | some m => .ok m
      | none => .error (.circular stub.target stub.requester access) := by
    intro access
    rw [← hheld]
    rfl
  constructor
  · exact h
  · exact hheld
  · rw [Registry.isReady, isLoaded, hheld]
  · exact hheld
  · exact hmodule
  · intro name
    rw [← hheld]
    rfl
  · rw [Registry.exportsOf, hmodule]
    cases r.get? stub.target <;> rfl
  · intro α apply name
    rw [Registry.callRef, hmodule]
    cases r.get? stub.target <;> rfl

theorem serves_of_grows {stub : Stub} (h : r.slot? stub.target = some stub.slot)
    (hq : r.Grows q) : q.Serves stub := serves_of_slot? (slot?_of_grows hq h)

end ScriptLoader.Registry
