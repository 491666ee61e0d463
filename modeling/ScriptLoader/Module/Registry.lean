import ScriptLoader.Module.Basic

/-!
# The registry of loaded modules

One slot for each specifier that was asked for. A slot is filled once and then never changes. Names
are looked up by way of their slots; a stub holds a slot and looks into it without a name.

* `Registry.slot`, `Registry.held?`: the slot of a specifier, and what a slot holds.
* `Registry.get?_fill`: what is loaded after a slot was filled.
* `Registry.fill_get?_of_loaded`: a filled slot keeps its module.
* `Registry.current`, `Registry.call`: what a binding stands for now, and calling an export. Both
  follow deferred names from module to module. A chain of them that runs in a circle has no end;
  the answer is then `none`.
-/

namespace ScriptLoader

/-- What the slots hold that were made; a slot without a module waits for it. -/
structure Registry (F : Type) where
  slots : Keyed Slot (Option (LoadedModule F)) := []
  deriving Inhabited

namespace Registry

variable {F : Type}

/-- The slot that was made for a specifier. -/
def slot? (r : Registry F) (s : Specifier) : Option Slot := r.slots.keys.find? (·.owner = s)

/-- The slot that a specifier has, or the one that it would be given. -/
def slot (r : Registry F) (s : Specifier) : Slot := (r.slot? s).getD ⟨s, 0⟩

/-- The module that a slot holds. -/
def held? (r : Registry F) (n : Slot) : Option (LoadedModule F) := (r.slots.get? n).join

def get? (r : Registry F) (s : Specifier) : Option (LoadedModule F) := (r.slot? s).bind r.held?

def isLoaded (r : Registry F) (s : Specifier) : Bool := (r.get? s).isSome

/-- The specifiers of loaded modules. -/
def loaded (r : Registry F) : List Specifier :=
  r.slots.filterMap fun (n, m) => m.map fun _ => n.owner

def size (r : Registry F) : Nat := r.loaded.length

/-- Gives a specifier a slot. -/
def allocate (r : Registry F) (s : Specifier) : Registry F :=
  if (r.slot? s).isSome then r else ⟨r.slots.put (r.slot s) none⟩

/-- Fills the slot of a specifier unless it is filled. -/
def fill (r : Registry F) (s : Specifier) (m : LoadedModule F) : Registry F :=
  if r.isLoaded s then r else ⟨r.slots.put (r.slot s) (some m)⟩

theorem isLoaded_iff {r : Registry F} {s : Specifier} :
    r.isLoaded s = true ↔ ∃ m, r.get? s = some m := Option.isSome_iff_exists

theorem isLoaded_eq_false_iff {r : Registry F} {s : Specifier} :
    r.isLoaded s = false ↔ r.get? s = none := by
  simp [isLoaded]

/-! ## Slots -/

theorem owner_of_slot? {r : Registry F} {s : Specifier} {n : Slot} (h : r.slot? s = some n) :
    n.owner = s := by
  simpa using List.find?_some h

theorem owner_slot (r : Registry F) (s : Specifier) : (r.slot s).owner = s := by
  unfold slot
  cases h : r.slot? s with
  | none => rfl
  | some n => exact owner_of_slot? h

theorem slot_inj {r : Registry F} {s t : Specifier} : r.slot s = r.slot t ↔ s = t := by
  refine ⟨fun h => ?_, fun h => h ▸ rfl⟩
  rw [← owner_slot r s, h, owner_slot]

/-- A slot that is there under a specifier's name is there for the specifier. -/
theorem slot?_of_mem {r : Registry F} {s : Specifier} (h : r.slot s ∈ r.slots.keys) :
    r.slot? s = some (r.slot s) := by
  unfold slot at h ⊢
  cases hs : r.slot? s with
  | none =>
    rw [hs] at h
    simpa using List.find?_eq_none.1 hs _ h
  | some n => rfl

/-- The module of a specifier is what its slot holds. -/
theorem get?_eq_held? (r : Registry F) (s : Specifier) : r.get? s = r.held? (r.slot s) := by
  unfold get?
  cases hs : r.slot? s with
  | some n => simp [slot, hs]
  | none =>
    have hnone : Keyed.get? (r.slot s) r.slots = none := by
      rw [← Option.not_isSome_iff_eq_none, Keyed.get?_isSome_iff]
      intro hmem
      rw [slot?_of_mem hmem] at hs
      cases hs
    rw [Option.bind_none, held?, hnone, Option.join_none]

section

variable (r : Registry F) (s t : Specifier) (n : Slot) (m : LoadedModule F)

theorem slot?_put (v : Option (LoadedModule F)) :
    slot? ⟨r.slots.put (r.slot s) v⟩ t = if t = s then some (r.slot s) else r.slot? t := by
  by_cases hmem : r.slot s ∈ r.slots.keys
  · rw [slot?, Keyed.keys_put, if_pos hmem]
    split
    · next hts => rw [hts]; exact slot?_of_mem hmem
    · rfl
  · have howner := owner_slot r s
    rw [slot?, Keyed.keys_put, if_neg hmem, List.find?_append, List.find?_singleton]
    change (r.slot? t).or _ = _
    by_cases hts : t = s
    · subst hts
      have hnone : r.slot? t = none := by
        refine Option.eq_none_iff_forall_ne_some.2 fun k hk => hmem ?_
        have hslot : r.slot t = k := by rw [slot, hk, Option.getD_some]
        exact hslot ▸ List.mem_of_find?_eq_some hk
      simp [hnone, howner]
    · simp [howner, hts, Ne.symm hts]

theorem held?_put (v : Option (LoadedModule F)) :
    held? ⟨r.slots.put (r.slot s) v⟩ n = if n = r.slot s then v else r.held? n := by
  unfold held?
  rw [Keyed.get?_put]
  split <;> rfl

theorem slot?_allocate :
    (r.allocate s).slot? t = if t = s then some (r.slot s) else r.slot? t := by
  unfold allocate
  split
  · next h =>
    obtain ⟨n, hn⟩ := Option.isSome_iff_exists.1 h
    split
    · next hts => rw [hts, slot, hn, Option.getD_some]
    · rfl
  · exact slot?_put r s t none

theorem slot?_fill :
    (r.fill s m).slot? t = if t = s then some (r.slot s) else r.slot? t := by
  unfold fill
  split
  · next h =>
    obtain ⟨k, hk⟩ := isLoaded_iff.1 h
    obtain ⟨n, hn, -⟩ := Option.bind_eq_some_iff.1 hk
    split
    · next hts => rw [hts, slot, hn, Option.getD_some]
    · rfl
  · exact slot?_put r s t (some m)

/-- Specifiers keep their slots. -/
@[simp] theorem slot_allocate : (r.allocate s).slot t = r.slot t := by
  rw [slot, slot?_allocate]
  split
  · next hts => rw [hts, Option.getD_some]
  · rfl

@[simp] theorem slot_fill : (r.fill s m).slot t = r.slot t := by
  rw [slot, slot?_fill]
  split
  · next hts => rw [hts, Option.getD_some]
  · rfl

theorem held?_allocate : (r.allocate s).held? n = r.held? n := by
  unfold allocate
  split
  · rfl
  · next h =>
    rw [held?_put]
    split
    · next hn =>
      rw [hn, ← get?_eq_held?, get?, Option.not_isSome_iff_eq_none.1 h, Option.bind_none]
    · rfl

theorem held?_fill : (r.fill s m).held? n =
    if n = r.slot s then (r.held? n).or (some m) else r.held? n := by
  unfold fill
  split
  · next h =>
    obtain ⟨k, hk⟩ := isLoaded_iff.1 h
    split
    · next hn => rw [hn, ← get?_eq_held?, hk, Option.some_or]
    · rfl
  · next h =>
    rw [held?_put]
    split
    · next hn =>
      rw [hn, ← get?_eq_held?, isLoaded_eq_false_iff.1 (by simpa using h), Option.none_or]
    · rfl

theorem get?_allocate : (r.allocate s).get? t = r.get? t := by
  rw [get?_eq_held?, get?_eq_held?, held?_allocate, slot_allocate]

theorem get?_fill :
    (r.fill s m).get? t = if t = s then (r.get? s).or (some m) else r.get? t := by
  simp only [get?_eq_held?, slot_fill, held?_fill, slot_inj]
  split
  · next hts => rw [hts]
  · rfl

end

theorem fill_get?_of_loaded {r : Registry F} {s t : Specifier} {m n : LoadedModule F}
    (h : r.get? t = some n) : (r.fill s m).get? t = some n := by
  rw [get?_fill]
  split
  · next heq =>
    subst heq
    rw [h, Option.some_or]
  · exact h

/-! ## Stubs and references -/

/-- Whether the module of a stub has loaded. -/
def isReady (r : Registry F) (s : Stub) : Bool := (r.held? s.slot).isSome

/-- The module of a stub. -/
def resolve (r : Registry F) (s : Stub) (access : Access) : Except LoadError (LoadedModule F) :=
  match r.held? s.slot with
  | some m => .ok m
  | none => .error (s.circular access)

/-- The module of a reference if it is there. -/
def loaded? (r : Registry F) : ModuleRef F → Option (LoadedModule F)
  | .loaded m => some m
  | .forwarded s => r.held? s.slot

/-- The module of a reference. -/
def moduleOf (r : Registry F) (ref : ModuleRef F) (access : Access) :
    Except LoadError (LoadedModule F) :=
  match ref with
  | .loaded m => .ok m
  | .forwarded s => r.resolve s access

/-- The export of a reference. One of a module that is still loading is deferred. -/
def export? (r : Registry F) (ref : ModuleRef F) (name : String) : Option (Binding F) :=
  match ref with
  | .loaded m => m.get? name
  | .forwarded s =>
    match r.held? s.slot with
    | some m => m.get? name
    | none => some (.deferred s name)

/-- The exports of a reference. -/
def exportsOf (r : Registry F) (ref : ModuleRef F) : Except LoadError (Exports F) :=
  (r.moduleOf ref .exports).map (·.exports)

/-! ## Following deferred names -/

/-- The number of exports in the registry: no chain without a circle is longer. -/
def exportCount (r : Registry F) : Nat :=
  r.slots.foldl (fun n (_, m) => n + (m.map fun m => m.exports.length).getD 0) 0

/-- What a binding stands for after at most `hops` deferred names. -/
def currentWithin (r : Registry F) : Nat → Binding F →
    Option (Except LoadError (Option (Binding F)))
  | _, .value v => some (.ok (some (.value v)))
  | _, .function f => some (.ok (some (.function f)))
  | 0, .deferred _ _ => none
  | hops + 1, .deferred s name =>
    match r.resolve s (.get name) with
    | .error e => some (.error e)
    | .ok m =>
      match m.get? name with
      | none => some (.ok none)
      | some b => currentWithin r hops b

/-- What a binding stands for now. -/
def current (r : Registry F) (b : Binding F) : Option (Except LoadError (Option (Binding F))) :=
  r.currentWithin (r.exportCount + 1) b

/-- Calls the export of a module after at most `hops` deferred names. `apply` calls a function. -/
def callWithin {α : Type} (r : Registry F) (apply : F → Except LoadError α) :
    Nat → LoadedModule F → String → Option (Except LoadError α)
  | 0, _, _ => none
  | hops + 1, m, name =>
    match m.get? name with
    | none => some (.error (m.notExported name))
    | some (.value _) => some (.error (m.notFunction name))
    | some (.function f) => some (apply f)
    | some (.deferred s inner) =>
      match r.resolve s (.call inner) with
      | .error e => some (.error e)
      | .ok m => callWithin r apply hops m inner

/-- Calls the export of a module. -/
def call {α : Type} (r : Registry F) (apply : F → Except LoadError α) (m : LoadedModule F)
    (name : String) : Option (Except LoadError α) :=
  r.callWithin apply (r.exportCount + 2) m name

/-- Calls a deferred name. -/
def callDeferred {α : Type} (r : Registry F) (apply : F → Except LoadError α) (s : Stub)
    (name : String) : Option (Except LoadError α) :=
  match r.resolve s (.call name) with
  | .error e => some (.error e)
  | .ok m => r.call apply m name

/-- Calls the export of a reference. -/
def callRef {α : Type} (r : Registry F) (apply : F → Except LoadError α) (ref : ModuleRef F)
    (name : String) : Option (Except LoadError α) :=
  match r.moduleOf ref (.call name) with
  | .error e => some (.error e)
  | .ok m => r.call apply m name

end Registry

end ScriptLoader
