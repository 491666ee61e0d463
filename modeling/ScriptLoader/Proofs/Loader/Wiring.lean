import ScriptLoader.Proofs.Assembly.BackEdges
import ScriptLoader.Proofs.Loader.Interleaving

/-!
# Stubs in later requests

A stub is handed out while its target is loading. Whether the target is loaded then, or by a later
request, or never, the stub keeps to the slot that the registry gave to the target, since all that a
run does to a registry is to let it grow.

* `Interleaving.registry_grows_steps`: however the steps of requests interleave, registries grow.
* `Interleaving.back_edges_stay_wired`: which dependencies are stubs, and what they answer later.
-/

namespace ScriptLoader.Interleaving

open Assembly

variable {F σ : Type} {host : Host F σ}

theorem registry_grows_move {locked : Prop} {entry : Specifier} {l k : Loader F σ}
    {st next : Stage F} (h : Move host locked entry l st k next) :
    l.registry.Grows k.registry := by
  rcases assembly_move h with he | ⟨g, rfl⟩
  · rw [Loader.registry, Loader.registry, he]
    exact .refl
  · exact (told_load host l.importer g entry l.assembly).grows

theorem registry_grows_steps {x y : Loader F σ × List (LoadRequest F)} (h : Steps host x y) :
    x.1.registry.Grows y.1.registry := by
  induction h with
  | refl => exact .refl
  | tail _ hs ih =>
    cases hs with
    | move _ hm => exact ih.trans (registry_grows_move hm)

/-- Whatever is loaded from whatever state: the calls of a load are all that the host is told, and
registries grow along them. Each call is for the first module of the path that the walk is inside
of, from this module to the entry, and is given the static dependencies of the module in the order
in which they first occur. A dependency is a stub if and only if it is not loaded and is on the
path; otherwise it is the module of the registry. A stub names the dependency and the module, and
holds the slot that the registry has for the dependency. What it finds there is what the registry
has for the dependency: in every registry that the one of the call grows into, behind the load, and
behind the steps of requests that follow, at their host calls, too. -/
theorem back_edges_stay_wired (host : Host F σ) (importer : Importer) (g : Graph)
    (entry : Specifier) (a : Assembly F σ) :
    let calls := callsOf host importer g entry a
    let behind := (load host importer g entry a).2
    (behind.host = calls.foldl host.behind a.host ∧
      calls.Pairwise fun c d => c.registry.Grows d.registry) ∧
    ∀ c ∈ calls, c.OnPath g entry ∧ ∃ r, g.get? c.module.specifier = some r ∧
      c.module.scope.keys = r.report.static.eraseDups ∧
      ∀ d ∈ r.report.static, ∃ ref, c.module.scope.get? d = some ref ∧
        (ref.isForwarded = true ↔ c.registry.get? d = none ∧ d ∈ c.path) ∧
        (∀ m, ref = .loaded m → c.registry.get? d = some m) ∧
        ∀ stub, ref = .forwarded stub →
          stub.target = d ∧ stub.requester = c.module.specifier ∧
          c.registry.slot? d = some stub.slot ∧
          (∀ later, c.registry.Grows later → later.Serves stub) ∧
          behind.registry.Serves stub ∧
          ∀ (l : Loader F σ) qs y, l.assembly = behind → Steps host (l, qs) y →
            y.1.registry.Serves stub ∧
            ∀ i other e, ∀ k ∈ callsOf host i other e y.1.assembly, k.registry.Serves stub := by
  intro calls behind
  have htold := told_load host importer g entry a
  refine ⟨⟨htold.host_eq, htold.inTurn⟩, fun c hc => ?_⟩
  obtain ⟨hpath, r, hr, hwired⟩ := wired_of_mem_callsOf hc
  refine ⟨hpath, r, hr, hwired.keys, fun d hd => ⟨_, hwired.sees d hd, ?_, ?_, ?_⟩⟩
  · unfold seen
    cases hn : c.registry.get? d with
    | some m => simp [ModuleRef.isForwarded]
    | none => simpa [ModuleRef.isForwarded] using hwired.mem_path d hd hn
  · intro m hm
    unfold seen at hm
    split at hm
    · next found hfound =>
      cases hm
      exact hfound
    · cases hm
  · intro stub hstub
    obtain rfl : stub = ⟨d, c.module.specifier, c.registry.slot d⟩ := by
      unfold seen at hstub
      split at hstub <;> cases hstub
      rfl
    have hslot : c.registry.slot? d = some (c.registry.slot d) := hwired.slot d hd
    have hserves : ∀ later, c.registry.Grows later →
        later.Serves ⟨d, c.module.specifier, c.registry.slot d⟩ :=
      fun later hlater => Registry.serves_of_grows hslot hlater
    have hended : c.registry.Grows behind.registry := htold.ended c hc
    refine ⟨rfl, rfl, hslot, hserves, hserves _ hended, fun l qs y hl hy => ?_⟩
    have hlater : c.registry.Grows y.1.registry := by
      have hsteps := registry_grows_steps hy
      rw [Loader.registry, hl] at hsteps
      exact hended.trans hsteps
    refine ⟨hserves _ hlater, fun i other e k hk => hserves _ (hlater.trans ?_)⟩
    exact (told_load host i other e y.1.assembly).began k hk

/-- A host that refuses the module `/a` once. -/
def refusingOnce : Host Unit Bool where
  instantiate _ m refused :=
    if m.specifier = ⟨"/a"⟩ ∧ refused = false then (.error (.evaluation ⟨"/a"⟩ "boom"), true)
    else (.ok [], refused)

/-- Two modules that import each other. -/
def knot : Graph where
  entries := [⟨"/a"⟩]
  records :=
    [{ specifier := ⟨"/a"⟩, location := "/a.ts", outcome := .ok "a"
       report := { static := [⟨"/b"⟩] } },
     { specifier := ⟨"/b"⟩, location := "/b.ts", outcome := .ok "b"
       report := { static := [⟨"/a"⟩] } }]

/-- A loader behind a load of `/a` that the host refused. -/
def refusedOnce : Loader Unit Bool where
  workshop := pair.workshop
  assembly := (load refusingOnce {} knot ⟨"/a"⟩ { host := false }).2

/-- The same loader behind another request for `/a`. -/
def tried : Loader Unit Bool × List (LoadRequest Unit) :=
  Loader.advanceBy refusingOnce (refusedOnce, asked [(⟨"/a"⟩, {})]) (List.replicate 9 0)

/-- The stub that `/b` is given for `/a` holds the slot that the second request fills. -/
theorem knot_is_wired_late :
    refusedOnce.registry.isLoaded ⟨"/a"⟩ = false ∧ tried.1.registry.isLoaded ⟨"/a"⟩ = true ∧
    ∃ c ∈ callsOf refusingOnce {} knot ⟨"/a"⟩ { host := false },
      c.path = [⟨"/b"⟩, ⟨"/a"⟩] ∧ ∃ stub,
        c.module.scope.get? ⟨"/a"⟩ = some (.forwarded stub) ∧
        stub.target = ⟨"/a"⟩ ∧ stub.requester = ⟨"/b"⟩ ∧
        c.registry.isReady stub = false ∧ refusedOnce.registry.isReady stub = false ∧
        tried.1.registry.isReady stub = true := by
  have hcalls : (callsOf refusingOnce {} knot ⟨"/a"⟩ { host := false }).map (fun c =>
      (c.path, c.module.specifier, c.registry.isLoaded ⟨"/a"⟩)) =
      [([⟨"/b"⟩, ⟨"/a"⟩], ⟨"/b"⟩, false), ([⟨"/a"⟩], ⟨"/a"⟩, false)] := by decide +kernel
  have hrefused : refusedOnce.registry.isLoaded ⟨"/a"⟩ = false := by decide +kernel
  have hloaded : tried.1.registry.isLoaded ⟨"/a"⟩ = true := by decide +kernel
  obtain ⟨c, hc, hfacts⟩ := List.mem_map.1 (hcalls ▸ List.mem_cons_self)
  obtain ⟨hpath, hrest⟩ := Prod.mk.inj hfacts
  obtain ⟨hname, hunloaded⟩ := Prod.mk.inj hrest
  have hnone : c.registry.get? ⟨"/a"⟩ = none := Registry.isLoaded_eq_false_iff.1 hunloaded
  obtain ⟨-, r, hr, -, hall⟩ :=
    (back_edges_stay_wired refusingOnce {} knot ⟨"/a"⟩ { host := false }).2 c hc
  rw [hname] at hr
  cases hr
  obtain ⟨ref, href, hforwarded, -, hstub⟩ := hall ⟨"/a"⟩ (List.mem_singleton.2 rfl)
  cases ref with
  | loaded m =>
    have hback : ⟨"/a"⟩ ∈ c.path := hpath ▸ List.mem_cons_of_mem _ List.mem_cons_self
    exact absurd (hforwarded.2 ⟨hnone, hback⟩) Bool.false_ne_true
  | forwarded stub =>
    obtain ⟨htarget, hrequester, -, hserves, hbehind, hlater⟩ := hstub stub rfl
    have hsteps : Steps refusingOnce (refusedOnce, asked [(⟨"/a"⟩, {})]) tried :=
      steps_advanceBy refusingOnce (List.replicate 9 0) _
    have hnow := (hserves _ .refl).isReady
    have hthen := hbehind.isReady
    have hfilled := (hlater refusedOnce _ tried rfl hsteps).1.isReady
    rw [htarget] at hnow hthen hfilled
    exact ⟨hrefused, hloaded, c, hc, hpath, stub, href, htarget, hrequester.trans hname,
      hnow.trans hunloaded, hthen.trans hrefused, hfilled.trans hloaded⟩

end ScriptLoader.Interleaving
