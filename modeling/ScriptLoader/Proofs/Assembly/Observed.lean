import ScriptLoader.Proofs.Assembly.Walk

/-!
# Observing a host

* `Host.observed`: a host that also keeps what it was given and what it answered, in order.
* `Assembly.load_observed`: observing a host changes nothing of what loading comes to.
-/

namespace ScriptLoader

variable {F σ : Type}

/-- What a host was given once, and its answer. -/
structure HostCall (F : Type) where
  module : HostModule F
  result : Except LoadError (Exports F)

/-- A host that also keeps what it was given and what it answered. -/
def Host.observed (host : Host F σ) : Host F (σ × List (HostCall F)) where
  instantiate registry m h :=
    let (result, s) := host.instantiate registry m h.1
    (result, s, h.2 ++ [⟨m, result⟩])

theorem Host.observed_instantiate (host : Host F σ) (registry : Registry F) (m : HostModule F)
    (h : σ × List (HostCall F)) :
    host.observed.instantiate registry m h =
      ((host.instantiate registry m h.1).1, (host.instantiate registry m h.1).2,
        h.2 ++ [⟨m, (host.instantiate registry m h.1).1⟩]) := rfl

/-- The call that an observed host keeps. -/
theorem Host.observed_calls {host : Host F σ} {registry : Registry F} {m : HostModule F}
    {h k : σ × List (HostCall F)} {result : Except LoadError (Exports F)}
    (hi : host.observed.instantiate registry m h = (result, k)) : k.2 = h.2 ++ [⟨m, result⟩] := by
  rw [observed_instantiate] at hi
  cases hi
  rfl

namespace Assembly

/-- An assembly without what was observed. -/
def unobserved (a : Assembly F (σ × List (HostCall F))) : Assembly F σ :=
  { registry := a.registry, host := a.host.1, events := a.events }

variable {α : Type} {host : Host F σ} {importer : Importer}

/-- An outcome without what was observed. -/
def Outcome.unobserved (x : Outcome F (σ × List (HostCall F)) α) : Outcome F σ α :=
  (x.1, x.2.unobserved)

theorem instantiate_observed (r : CompiledRecord) (scope : Scope F)
    (a : Assembly F (σ × List (HostCall F))) :
    Outcome.unobserved (instantiate host.observed importer r scope a) =
      instantiate host importer r scope a.unobserved := by
  unfold instantiate
  cases r.readyCode? with
  | none => rfl
  | some compiled =>
    simp only [Host.observed_instantiate, log, unobserved]
    rcases host.instantiate a.registry (given importer r scope compiled) a.host.1 with ⟨_ | _, _⟩
    · rfl
    · rfl

theorem bindAll_observed
    {visit : Specifier → Assembly F (σ × List (HostCall F)) →
      Outcome F (σ × List (HostCall F)) (ModuleRef F)}
    {plain : Specifier → Assembly F σ → Outcome F σ (ModuleRef F)}
    (hv : ∀ d a, Outcome.unobserved (visit d a) = plain d a.unobserved) (ds : List Specifier)
    (scope : Scope F) (a : Assembly F (σ × List (HostCall F))) :
    Outcome.unobserved (bindAll visit ds scope a) = bindAll plain ds scope a.unobserved := by
  induction ds generalizing scope a with
  | nil => rfl
  | cons d ds ih =>
    unfold bindAll
    rw [← hv d a]
    rcases visit d a with ⟨e | ref, b⟩
    · rfl
    · exact ih _ b

theorem loadRef_observed (g : Graph) (fuel : Nat) (path : List Specifier) (s : Specifier)
    (a : Assembly F (σ × List (HostCall F))) :
    Outcome.unobserved (loadRef host.observed importer g fuel path s a) =
      loadRef host importer g fuel path s a.unobserved := by
  induction fuel generalizing path s a with
  | zero => rfl
  | succ fuel ih =>
    have hslot : (a.unobserved.allocate s).registry = (a.allocate s).registry := rfl
    unfold loadRef
    dsimp only
    rw [hslot]
    cases (a.allocate s).registry.get? s with
    | some m => rfl
    | none =>
      cases path.contains s with
      | true => rfl
      | false =>
        cases g.get? s with
        | none => rfl
        | some r =>
          have hb := bindAll_observed (fun d b => ih (s :: path) d b) r.report.static []
            (a.allocate s)
          change _ = bindAll _ _ _ (a.unobserved.allocate s) at hb
          simp only [Bool.false_eq_true, if_false]
          rw [← hb]
          rcases bindAll (loadRef host.observed importer g fuel (s :: path)) r.report.static []
            (a.allocate s) with ⟨e | scope, b⟩
          · rfl
          · exact instantiate_observed r scope b

/-- Loading under an observed host comes to what loading under the host comes to. -/
theorem load_observed (g : Graph) (entry : Specifier) (a : Assembly F (σ × List (HostCall F))) :
    Outcome.unobserved (load host.observed importer g entry a) =
      load host importer g entry a.unobserved := by
  unfold load
  rcases g.awaitCode with ⟨g, e | ⟨⟩⟩
  · rfl
  · dsimp only
    rw [← loadRef_observed]
    rcases loadRef host.observed importer g (g.size + 1) [] entry a with ⟨e | ref, b⟩
    · rfl
    · rfl

end Assembly

end ScriptLoader
