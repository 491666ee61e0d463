import ScriptLoader.Loader.Request
import ScriptLoader.Proofs.Loader.Retention
import ScriptLoader.Proofs.Loader.StaticClosure
import ScriptLoader.Proofs.Sharing.Request

/-!
# The parts of a request that nothing comes between

What a loader does in one step, the conduct of a request does in several touches. When nothing comes
between these, they come to the same.

* `Sharing.leads_discover`, `Sharing.leads_follow`, `Sharing.leads_load`, `Sharing.leads_retain`:
  discovering, taking in, assembling and keeping.
-/

namespace ScriptLoader

variable {F σ ι : Type}

/-- What requests share of an assembly and prepared modules. -/
def Assembly.common (a : Assembly F σ) (prepared : Keyed Specifier Prepared) (holder : Option ι) :
    Sharing.Shared F σ ι := ⟨a.registry, a.host, prepared, holder⟩

/-- What requests share of a loader. -/
def Loader.common (l : Loader F σ) (holder : Option ι) : Sharing.Shared F σ ι :=
  l.assembly.common l.prepared holder

namespace Sharing

open Conduct

variable {host : Host F σ} {supply : Supply} {i : ι} {l : Loader F σ} {holder : Option ι}
  {options : Compile.Options}

theorem host_common : (l.common holder : Shared F σ ι).host = l.assembly.host := rfl

theorem prepared_common : (l.common holder : Shared F σ ι).prepared = l.prepared := rfl

theorem registry_common : (l.common holder : Shared F σ ι).registry = l.registry := rfl

theorem under?_common (s : Specifier) :
    Prepared.under? options ((l.common holder : Shared F σ ι).prepared.get? s) =
      l.preparedRecord? options s := rfl

/-! ## Discovering -/

theorem leads_skips (s : Specifier) :
    Leads host supply i (l.common holder) (skips options s) (l.common holder)
      (.done (l.skips options s)) := by
  refine .perform .look ?_
  unfold Loader.skips Registry.isLoaded
  rw [registry_common]
  cases l.registry.get? s with
  | some m => exact .refl
  | none => exact .perform .seek .refl

/-- Discovering a list of modules is discovering its first one, and then the others. -/
theorem discover_cons (skip : Specifier → Bool) (s : Specifier) (found : List Specifier)
    (r : Resolution) :
    (Resolution.discover skip (s :: found) r).1 =
      if r.graph.contains s || r.pending.contains s || skip s then
        (Resolution.discover skip found r).1
      else (Resolution.discover skip found { r with pending := r.pending ++ [s] }).1 := by
  unfold Resolution.discover Resolution.fresh
  dsimp only
  by_cases hs : (r.graph.contains s || r.pending.contains s || skip s) = true
  · rw [if_pos hs, List.filter_cons_of_neg (by rw [hs]; simp)]
  · rw [if_neg hs, List.filter_cons_of_pos (by rw [Bool.not_eq_true] at hs; rw [hs]; rfl),
      List.eraseDups_cons, List.filter_filter, List.append_cons]
    congr 3
    refine List.filter_congr fun t _ => ?_
    by_cases hts : t = s <;> simp [hts, List.contains_eq_mem, and_comm]

theorem leads_discover (found : List Specifier) (r : Resolution) :
    Leads host supply i (l.common holder) (discover options found r) (l.common holder)
      (.done (Resolution.discover (l.skips options) found r).1) := by
  induction found generalizing r with
  | nil =>
    have : (Resolution.discover (l.skips options) [] r).1 = r := by
      simp [Resolution.discover, Resolution.fresh]
    rw [this]
    exact .refl
  | cons s found ih =>
    unfold discover
    rw [discover_cons]
    by_cases hk : (r.graph.contains s || r.pending.contains s) = true
    · rw [if_pos hk, if_pos (by rw [hk]; rfl)]
      exact ih r
    · rw [if_neg hk]
      refine .bind (leads_skips s) ?_
      rw [Bool.not_eq_true] at hk
      rw [hk, Bool.false_or]
      split
      · exact ih r
      · exact ih _

/-! ## Taking prepared modules in -/

section

variable {g : Graph}

/-- Taking one module in is one step of a loader. -/
theorem leads_takeIn (s : Specifier) :
    Leads host supply i (l.common holder) (takeIn options s g) (l.common holder)
      (.done (l.takeIn options g s)) := by
  unfold takeIn Loader.takeIn Loader.lacked?
  split
  · exact .refl
  · refine .perform .seek ?_
    rw [under?_common]
    cases l.preparedRecord? options s with
    | some r => exact .refl
    | none => exact .refl

/-- With more patience than there are steps, the modules on a stack are followed to the end. -/
theorem leads_follow {n patience : Nat} {t : Loader.Taking} (h : l.Ends options n t g)
    (hpatience : n < patience) :
    Leads host supply i (l.common holder) (follow options patience t.seen t.stack t.graph)
      (l.common holder) (.done g) := by
  induction h generalizing patience with
  | @done t hnext =>
    rw [Loader.Taking.next_eq_none_iff.1 hnext]
    cases patience <;> exact .refl
  | @next n t u g hnext _ ih =>
    obtain ⟨seen, _ | ⟨s, stack⟩, graph⟩ := t
    · cases hnext
    · obtain _ | patience := patience
      · exact absurd hpatience (Nat.not_lt_zero _)
      · have hpatience : n < patience := by omega
        simp only [Loader.Taking.next] at hnext
        rw [follow]
        split at hnext
        · next hs =>
          cases hnext
          rw [if_pos hs]
          exact ih hpatience
        · next hs =>
          rw [if_neg hs]
          refine .perform .look ?_
          rw [registry_common]
          split at hnext
          · next hl =>
            cases hnext
            obtain ⟨m, hm⟩ := Registry.isLoaded_iff.1 hl
            rw [hm]
            exact ih hpatience
          · next hl =>
            rw [Registry.isLoaded_eq_false_iff.1 (by simpa using hl)]
            refine .bind (leads_takeIn s) ?_
            split at hnext
            · next hr =>
              cases hnext
              rw [hr]
              exact ih hpatience
            · next hr =>
              cases hnext
              rw [hr]
              exact ih hpatience

/-- Taking in comes to what a loader takes in, with patience enough. -/
theorem leads_adopt (hnamed : ∀ s p, l.prepared.get? s = some p → p.record.specifier = s)
    (hnodup : (Keyed.keys l.prepared).Nodup) {entry : Specifier} {patience : Nat}
    (hpatience : Closure.ahead [] (l.recordTable options g) + 1 < patience) :
    Leads host supply i (l.common holder) (follow options patience [] [entry] g) (l.common holder)
      (.done (l.adopt options entry g).1) := by
  obtain ⟨n, hn, hends⟩ := Loader.ends_visit hnodup hnamed options g [] [entry] [] (by simp)
  exact leads_follow hends (Nat.lt_of_le_of_lt hn hpatience)

end

/-! ## Assembling -/

theorem leads_bindAll {prepared : Keyed Specifier Prepared}
    {visit : Specifier → Conduct F (Except LoadError (ModuleRef F))}
    {plain : Specifier → Assembly F σ → Assembly.Outcome F σ (ModuleRef F)}
    (hvisit : ∀ s a, Leads host supply i (a.common prepared holder) (visit s)
      ((plain s a).2.common prepared holder) (.done (plain s a).1))
    (ds : List Specifier) (scope : Scope F) (a : Assembly F σ) :
    Leads host supply i (a.common prepared holder) (bindAll visit ds scope)
      ((Assembly.bindAll plain ds scope a).2.common prepared holder)
      (.done (Assembly.bindAll plain ds scope a).1) := by
  induction ds generalizing scope a with
  | nil => exact .refl
  | cons s ds ih =>
    unfold bindAll Assembly.bindAll
    refine .bind (hvisit s a) ?_
    rcases plain s a with ⟨_ | ref, b⟩
    · exact .refl
    · exact ih _ b

theorem leads_instantiate {prepared : Keyed Specifier Prepared} {importer : Importer}
    (r : CompiledRecord) (scope : Scope F) (a : Assembly F σ) :
    Leads host supply i (a.common prepared holder) (instantiate importer r scope)
      ((Assembly.instantiate host importer r scope a).2.common prepared holder)
      (.done (Assembly.instantiate host importer r scope a).1) := by
  unfold instantiate Assembly.instantiate
  cases r.readyCode? with
  | none => exact .refl
  | some compiled =>
    refine .perform .instantiate ?_
    dsimp only [Assembly.common, Assembly.log]
    rcases host.instantiate a.registry (Assembly.given importer r scope compiled) a.host with
      ⟨_ | exports, k⟩
    · exact .refl
    · exact .perform .fill .refl

theorem leads_loadRef {prepared : Keyed Specifier Prepared} {importer : Importer} {g : Graph}
    (fuel : Nat) (path : List Specifier) (s : Specifier) (a : Assembly F σ) :
    Leads host supply i (a.common prepared holder) (loadRef importer g fuel path s)
      ((Assembly.loadRef host importer g fuel path s a).2.common prepared holder)
      (.done (Assembly.loadRef host importer g fuel path s a).1) := by
  induction fuel generalizing path s a with
  | zero => exact .refl
  | succ fuel ih =>
    unfold loadRef Assembly.loadRef
    have hget : (a.registry.allocate s).get? s =
        (a.registry.allocate s).held? (a.registry.slot s) := by
      rw [Registry.get?_eq_held?, Registry.slot_allocate]
    refine .perform .allocate (.perform .peek ?_)
    dsimp only [Assembly.common, Assembly.allocate]
    rw [hget, Registry.slot_allocate]
    cases (a.registry.allocate s).held? (a.registry.slot s) with
    | some m => exact .refl
    | none =>
      dsimp only
      split
      · exact .refl
      · cases g.get? s with
        | none => exact .refl
        | some r =>
          dsimp only
          have hbind := leads_bindAll (fun t b => ih (s :: path) t b) r.report.static []
            (a.allocate s)
          refine .bind hbind ?_
          dsimp only [Assembly.allocate]
          rcases Assembly.bindAll (Assembly.loadRef host importer g fuel (s :: path))
            r.report.static [] { a with registry := a.registry.allocate s } with ⟨_ | scope, b⟩
          · exact .refl
          · exact leads_instantiate r scope b

theorem leads_load {prepared : Keyed Specifier Prepared} {importer : Importer} (g : Graph)
    (entry : Specifier) (a : Assembly F σ) :
    Leads host supply i (a.common prepared holder) (load importer g entry)
      ((Assembly.load host importer g entry a).2.common prepared holder)
      (.done (Assembly.load host importer g entry a).1) := by
  unfold load Assembly.load
  rcases g.awaitCode with ⟨g, _ | ⟨⟩⟩
  · exact .refl
  · dsimp only
    refine .bind (leads_loadRef (g.size + 1) [] entry a) ?_
    rcases Assembly.loadRef host importer g (g.size + 1) [] entry a with ⟨_ | ref, b⟩
    · exact .refl
    · cases ref with
      | loaded m => exact .refl
      | forwarded stub =>
        refine .perform .peek ?_
        dsimp only [Assembly.common, Registry.moduleOf, Registry.resolve]
        cases b.registry.held? stub.slot <;> exact .refl

/-! ## Keeping -/

theorem leads_retainRecord (l : Loader F σ) (r : CompiledRecord) :
    Leads host supply i (l.common holder) (retainRecord options r)
      ((Loader.retainRecord options l r).common holder) (.done ()) := by
  refine .perform .look ?_
  unfold Loader.retainRecord Registry.isLoaded
  rw [registry_common]
  cases l.registry.get? r.specifier with
  | some m => exact .touch .forget .refl
  | none => exact .touch .keep .refl

theorem leads_retain (rs : List CompiledRecord) (l : Loader F σ) :
    Leads host supply i (l.common holder) (retain options rs)
      ((rs.foldl (Loader.retainRecord options) l).common holder) (.done ()) := by
  induction rs generalizing l with
  | nil => exact .refl
  | cons r rs ih => exact .bind (leads_retainRecord l r) (ih _)

end Sharing

end ScriptLoader
