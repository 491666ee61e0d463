import ScriptLoader.Proofs.Assembly.Walk

/-!
# Instantiating once

A host that keeps a record of what it instantiates shows that a walk instantiates nothing twice,
and nothing that is loaded: the slot of a module is empty until its host call returns, since nothing
on the path of a walk is loaded.

* `Host.recording`: a host with a record of what it instantiated.
* `Assembly.Tallied`: the record names no module twice, and only loaded modules. Loading keeps this
  (`Assembly.tallied_load`).
-/

namespace ScriptLoader

variable {F σ : Type}

/-- A host that also keeps the modules that it instantiated, in order. A module that it refuses is
not among them. -/
def Host.recording (host : Host F σ) : Host F (σ × List Specifier) where
  instantiate registry m h :=
    match host.instantiate registry m h.1 with
    | (.ok exports, s) => (.ok exports, s, h.2 ++ [m.specifier])
    | (.error e, s) => (.error e, s, h.2)

theorem Host.recording_ok {host : Host F σ} {registry : Registry F} {m : HostModule F}
    {h k : σ × List Specifier} {exports : Exports F}
    (hi : host.recording.instantiate registry m h = (.ok exports, k)) :
    k.2 = h.2 ++ [m.specifier] := by
  unfold recording at hi
  dsimp only at hi
  split at hi <;> cases hi
  rfl

theorem Host.recording_error {host : Host F σ} {registry : Registry F} {m : HostModule F}
    {h k : σ × List Specifier} {e : LoadError}
    (hi : host.recording.instantiate registry m h = (.error e, k)) : k.2 = h.2 := by
  unfold recording at hi
  dsimp only at hi
  split at hi <;> cases hi
  rfl

namespace Assembly

/-- No module is in the host's record twice, and all of them are loaded. -/
structure Tallied (a : Assembly F (σ × List Specifier)) : Prop where
  nodup : a.host.2.Nodup
  loaded : ∀ s ∈ a.host.2, a.registry.isLoaded s = true

variable {host : Host F σ} {importer : Importer}

theorem Tallied.of_keeps {path : List Specifier} {a b : Assembly F (σ × List Specifier)}
    (h : a.Tallied) (hk : Keeps path a b) (hb : b.host.2 = a.host.2) : b.Tallied :=
  ⟨hb ▸ h.nodup, fun s hs => hk.isLoaded (h.loaded s (hb ▸ hs))⟩

theorem Tallied.allocate {a : Assembly F (σ × List Specifier)} (h : a.Tallied) (s : Specifier) :
    (a.allocate s).Tallied :=
  have hk : Keeps [] a (a.allocate s) := .allocate s
  h.of_keeps hk rfl

theorem tallied_instantiate {r : CompiledRecord} {scope : Scope F}
    {a : Assembly F (σ × List Specifier)} (h : a.Tallied)
    (hr : a.registry.get? r.specifier = none) :
    (instantiate host.recording importer r scope a).2.Tallied := by
  have hk : Keeps [] a (instantiate host.recording importer r scope a).2 :=
    keeps_instantiate _ _ _ _ (by simp)
  rcases instantiate_cases host.recording importer r scope a with
    ⟨-, hi⟩ | ⟨_, -, ⟨_, k, b, hc, hi, -, hb⟩ | ⟨_, k, b, m, hc, hi, -, hreg, hb⟩⟩
  · rwa [hi]
  · rw [hi] at hk ⊢
    exact h.of_keeps hk (by rw [hb, Host.recording_error hc])
  · rw [hi] at hk ⊢
    have hrec : b.host.2 = a.host.2 ++ [r.specifier] := by rw [hb, Host.recording_ok hc]; rfl
    have hnew : r.specifier ∉ a.host.2 := by
      intro hmem
      obtain ⟨n, hn⟩ := Registry.isLoaded_iff.1 (h.loaded _ hmem)
      rw [hr] at hn
      cases hn
    constructor
    · rw [hrec]
      refine List.nodup_append.2 ⟨h.nodup, List.nodup_singleton _, ?_⟩
      rintro s hs _ hs' rfl
      exact hnew (List.mem_singleton.1 hs' ▸ hs)
    · intro s hs
      rw [hrec, List.mem_append, List.mem_singleton] at hs
      rcases hs with hs | rfl
      · exact hk.isLoaded (h.loaded s hs)
      · rw [Registry.isLoaded_iff]
        exact ⟨m, by rw [hreg, Registry.get?_fill, if_pos rfl, hr, Option.none_or]⟩

theorem tallied_laws (host : Host F σ) (importer : Importer) (g : Graph) :
    Laws host.recording importer g (fun _ _ a x => a.Tallied → x.2.Tallied)
      (fun _ _ _ a x => a.Tallied → x.2.Tallied) where
  loaded _ h := h.allocate _
  forwarded {path s a} _ _ h :=
    have hk : Keeps path a ((a.allocate s).log (.circularImport s (path.headD s))) :=
      (Keeps.allocate s).trans (.log _)
    h.of_keeps hk rfl
  missing _ _ _ h := h.allocate _
  failed _ _ _ hb h := hb (h.allocate _)
  bound {path s a b r scope} hn _ hr hk hb h := by
    refine tallied_instantiate (hb (h.allocate s)) ?_
    rw [Graph.specifier_of_get? hr, hk.path s List.mem_cons_self, hn]
  nil h := h
  stop hv h := hv h
  next _ _ hv hb h := hb (hv h)

/-- Loading instantiates nothing twice, and nothing that is loaded. -/
theorem tallied_load {g : Graph} {entry : Specifier} {a : Assembly F (σ × List Specifier)}
    (h : a.Tallied) : (load host.recording importer g entry a).2.Tallied := by
  have hw := walk_of_laws (tallied_laws host importer g.awaitCode.1) entry a h
  rcases load_cases host.recording importer g entry a with
    ⟨e, -, hl⟩ | ⟨-, ⟨e, b, hb, hl⟩ | ⟨m, b, hb, -, hl⟩⟩
  · rwa [hl]
  · rw [hb] at hw
    rwa [hl]
  · rw [hb] at hw
    rwa [hl]

end Assembly

end ScriptLoader
