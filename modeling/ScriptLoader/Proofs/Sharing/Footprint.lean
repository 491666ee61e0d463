import ScriptLoader.Proofs.Sharing.Duty

/-!
# What a touch depends on

A touch of a request that keeps to its duty depends on the modules of the request alone, and leaves
all others as they are.

* `Sharing.Agree`: what requests share is the same at the modules of one request.
* `Sharing.agree_of_apart`: what others touch stays apart from it.
* `Sharing.exists_alike`: where the same is shared, a touch is answered the same.
* `Sharing.Performs.unique`: a touch and its answer decide what is left.
* `Sharing.Run.unique_of_alone`: the order in which modules are there decides how a request fares
  alone.
-/

namespace ScriptLoader

variable {F σ ι : Type}

/-- A specifier that has the same slot in two registries, with the same in it, has the same
module. -/
theorem Registry.get?_congr {r q : Registry F} {s : Specifier} (hslot : r.slot? s = q.slot? s)
    (hheld : ∀ n : Slot, n.owner = s → r.held? n = q.held? n) : r.get? s = q.get? s := by
  rw [get?_eq_held?, get?_eq_held?, slot, hslot]
  exact hheld _ (owner_slot q s)

namespace Sharing

variable {host : Host F σ} {supply : Supply} {i j : ι} {h k after : Shared F σ ι} {t : Touch F}
  {a : t.Answer} {d e : Duty} {held : Bool}

/-- The same is shared at the modules of request `i`, and `i` has the lock in both cases or in
none. In the second case nobody else has it. -/
structure Agree (own : Specifier → Prop) (i : ι) (h k : Shared F σ ι) : Prop where
  slot : ∀ s, own s → h.registry.slot? s = k.registry.slot? s
  inside : ∀ n : Slot, own n.owner → h.registry.held? n = k.registry.held? n
  prepared : ∀ s, own s → h.prepared.get? s = k.prepared.get? s
  held : h.holder = some i ↔ k.holder = some i
  alone : k.holder = none ∨ k.holder = some i

/-- What another request touches is apart from the modules of request `i`. -/
theorem agree_of_apart (hji : j ≠ i) (hapart : ∀ s, d.Owns s → ¬ e.Owns s)
    (hallows : e.Allows held t) (hp : Performs host supply j h t a after)
    (hk : Agree d.Owns i h k) : Agree d.Owns i after k := by
  cases hp with
  | look => exact hk
  | seek => exact hk
  | await => exact hk
  | peek => exact hk
  | acquire hfree =>
    refine ⟨hk.slot, hk.inside, hk.prepared, ?_, hk.alone⟩
    rw [← hk.held]
    simp [hfree, hji]
  | release hheld =>
    refine ⟨hk.slot, hk.inside, hk.prepared, ?_, hk.alone⟩
    rw [← hk.held]
    simp [hheld, hji]
  | @allocate s =>
    refine ⟨fun u hu => ?_, fun n hn => ?_, hk.prepared, hk.held, hk.alone⟩
    · rw [Registry.slot?_allocate, if_neg (by rintro rfl; exact hapart u hu hallows)]
      exact hk.slot u hu
    · rw [Registry.held?_allocate]
      exact hk.inside n hn
  | instantiate => exact ⟨hk.slot, hk.inside, hk.prepared, hk.held, hk.alone⟩
  | @fill s m =>
    have hne : ∀ u, d.Owns u → u ≠ s := fun u hu he => hapart u hu (he ▸ hallows)
    refine ⟨fun u hu => ?_, fun n hn => ?_, hk.prepared, hk.held, hk.alone⟩
    · rw [Registry.slot?_fill, if_neg (hne u hu)]
      exact hk.slot u hu
    · have hother : n ≠ h.registry.slot s := by
        rintro rfl
        exact hne _ hn (Registry.owner_slot _ s)
      rw [Registry.held?_fill, if_neg hother]
      exact hk.inside n hn
  | @keep p =>
    refine ⟨hk.slot, hk.inside, fun u hu => ?_, hk.held, hk.alone⟩
    rw [Keyed.get?_put,
      if_neg (by rintro rfl; exact hapart _ hu (e.owns_specifier hallows.2))]
    exact hk.prepared u hu
  | @forget s =>
    refine ⟨hk.slot, hk.inside, fun u hu => ?_, hk.held, hk.alone⟩
    rw [Keyed.get?_erase, if_neg (by rintro rfl; exact hapart u hu hallows)]
    exact hk.prepared u hu

/-- Where the same is shared, a touch of request `i` is answered the same and does the same. What
the host answers depends on the module alone. -/
theorem exists_alike {answer : HostModule F → Except LoadError (Exports F)}
    (hhost : ∀ R m s, (host.instantiate R m s).1 = answer m) (hallows : d.Allows held t)
    (hp : Performs host supply i h t a after) (hk : Agree d.Owns i h k) :
    ∃ mid, Performs host supply i k t a mid ∧ Agree d.Owns i after mid := by
  cases hp with
  | @look s =>
    refine ⟨k, ?_, hk⟩
    rw [Registry.get?_congr (hk.slot s hallows) fun n hn => hk.inside n (hn ▸ hallows)]
    exact .look
  | @seek s =>
    refine ⟨k, ?_, hk⟩
    rw [hk.prepared s hallows]
    exact .seek
  | await hs hsupply => exact ⟨k, .await hs hsupply, hk⟩
  | acquire hfree =>
    have hnone : k.holder = none := by
      refine hk.alone.resolve_right fun hheld => ?_
      rw [hk.held.2 hheld] at hfree
      cases hfree
    exact ⟨_, .acquire hnone, hk.slot, hk.inside, hk.prepared, by simp, by simp⟩
  | release hheld =>
    exact ⟨_, .release (hk.held.1 hheld), hk.slot, hk.inside, hk.prepared, by simp, by simp⟩
  | @allocate s =>
    have hslot : h.registry.slot s = k.registry.slot s := by
      rw [Registry.slot, Registry.slot, hk.slot s hallows]
    refine ⟨{ k with registry := k.registry.allocate s }, ?_, fun u hu => ?_, fun n hn => ?_,
      hk.prepared, hk.held, hk.alone⟩
    · rw [hslot]
      exact .allocate
    · rw [Registry.slot?_allocate, Registry.slot?_allocate, hk.slot u hu, hslot]
    · rw [Registry.held?_allocate, Registry.held?_allocate, hk.inside n hn]
  | @peek n =>
    refine ⟨k, ?_, hk⟩
    rw [hk.inside n hallows]
    exact .peek
  | @instantiate m =>
    refine ⟨{ k with host := (host.instantiate k.registry m k.host).2 }, ?_, hk.slot, hk.inside,
      hk.prepared, hk.held, hk.alone⟩
    rw [hhost, ← hhost k.registry m k.host]
    exact .instantiate
  | @fill s m =>
    have hslot : h.registry.slot s = k.registry.slot s := by
      rw [Registry.slot, Registry.slot, hk.slot s hallows]
    refine ⟨_, .fill, fun u hu => ?_, fun n hn => ?_, hk.prepared, hk.held, hk.alone⟩
    · rw [Registry.slot?_fill, Registry.slot?_fill, hk.slot u hu, hslot]
    · rw [Registry.held?_fill, Registry.held?_fill, hk.inside n hn, hslot]
  | @keep p =>
    refine ⟨_, .keep, hk.slot, hk.inside, fun u hu => ?_, hk.held, hk.alone⟩
    rw [Keyed.get?_put, Keyed.get?_put, hk.prepared u hu]
  | @forget s =>
    refine ⟨_, .forget, hk.slot, hk.inside, fun u hu => ?_, hk.held, hk.alone⟩
    rw [Keyed.get?_erase, Keyed.get?_erase, hk.prepared u hu]

/-! ## One outcome -/

theorem Performs.unique (hp : Performs host supply i h t a after)
    (hq : Performs host supply i h t a k) : after = k := by
  cases hp <;> cases hq <;> rfl

/-- What is awaited, if a touch waits for modules. -/
def Event.awaited? (x : Event F ι) : Option (Specifier × Except LoadError CompiledRecord) :=
  match x with
  | ⟨_, .await .., a⟩ => some a
  | _ => none

/-- But for what is awaited, what is shared decides the answer. -/
theorem Performs.answer {b : t.Answer} (hp : Performs host supply i h t a after)
    (hq : Performs host supply i h t b k)
    (hawaited : (⟨i, t, a⟩ : Event F ι).awaited? = (⟨i, t, b⟩ : Event F ι).awaited?) : a = b := by
  cases hp with
  | await => exact Option.some.inj hawaited
  | _ =>
    cases hq
    rfl

/-- A request that runs alone to its end does so in one way, if it awaits the same. -/
theorem Run.unique_of_alone [DecidableEq ι] {α : Type} {start x y : State F σ ι α} {u v : α}
    {alone other : List (Event F ι)} (hx : Run host supply start alone x)
    (hy : Run host supply start other y) (halone : ∀ e ∈ alone, e.request = i)
    (hother : ∀ e ∈ other, e.request = i) (hu : x.conduct i = .done u) (hv : y.conduct i = .done v)
    (hawaited : alone.filterMap Event.awaited? = other.filterMap Event.awaited?) :
    alone = other ∧ x = y := by
  induction alone generalizing start other with
  | nil =>
    obtain rfl := hx.eq_of_nil
    cases other with
    | nil => exact ⟨rfl, hy.eq_of_nil.symm⟩
    | cons f other =>
      obtain ⟨next, after, hc, -, -⟩ := hy.uncons
      rw [hother f List.mem_cons_self, hu] at hc
      cases hc
  | cons e alone ih =>
    obtain ⟨next, after, hc, hp, hrest⟩ := hx.uncons
    obtain ⟨j, t, a⟩ := e
    obtain rfl : j = i := halone _ List.mem_cons_self
    cases other with
    | nil =>
      rw [← hy.eq_of_nil, hv] at hc
      cases hc
    | cons f other =>
      obtain ⟨next', after', hc', hq, hrest'⟩ := hy.uncons
      obtain ⟨j', t', b⟩ := f
      obtain rfl : j' = j := hother _ List.mem_cons_self
      cases hc.symm.trans hc'
      -- The two begin with the same touch, and it is answered the same.
      have hboth : (⟨j', t, a⟩ : Event F ι).awaited? = (⟨j', t, b⟩ : Event F ι).awaited? ∧
          alone.filterMap Event.awaited? = other.filterMap Event.awaited? := by
        cases t with
        | await o pending =>
          change a :: alone.filterMap Event.awaited? =
            b :: other.filterMap Event.awaited? at hawaited
          obtain ⟨rfl, htail⟩ := List.cons.inj hawaited
          exact ⟨rfl, htail⟩
        | _ => exact ⟨rfl, hawaited⟩
      obtain rfl := hp.answer hq hboth.1
      obtain rfl := hp.unique hq
      obtain ⟨rfl, rfl⟩ := ih hrest hrest' (fun e he => halone e (List.mem_cons_of_mem _ he))
        (fun e he => hother e (List.mem_cons_of_mem _ he)) hboth.2
      exact ⟨rfl, rfl⟩

end Sharing

end ScriptLoader
