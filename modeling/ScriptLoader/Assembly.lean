import ScriptLoader.Graph.Basic
import ScriptLoader.Host.Basic
import ScriptLoader.Log.Event

/-!
# Assembling modules

A resolved graph is instantiated in depth-first order from an entry: the static dependencies of a
module come first, in the order of import. A dependency on the path that is being walked cannot be
waited for; its importer is given a stub. What is in the registry is taken from there.

* `Assembly.loadRef`: one step of the walk.
* `Assembly.load`: the module of an entry.
-/

namespace ScriptLoader

/-- The state that assembling changes. -/
structure Assembly (F σ : Type) where
  registry : Registry F := {}
  host : σ
  /-- What was logged. -/
  events : List Log.Event := []

namespace Assembly

variable {F σ : Type}

/-- What a step comes to, and the state after it. -/
abbrev Outcome (F σ α : Type) := Except LoadError α × Assembly F σ

def log (a : Assembly F σ) (e : Log.Event) : Assembly F σ := { a with events := a.events ++ [e] }

/-- Gives a specifier a slot. -/
def allocate (a : Assembly F σ) (s : Specifier) : Assembly F σ :=
  { a with registry := a.registry.allocate s }

/-- Binds dependencies one after the other. -/
def bindAll (visit : Specifier → Assembly F σ → Outcome F σ (ModuleRef F)) :
    List Specifier → Scope F → Assembly F σ → Outcome F σ (Scope F)
  | [], scope, a => (.ok scope, a)
  | d :: ds, scope, a =>
    match visit d a with
    | (.error e, a) => (.error e, a)
    | (.ok ref, a) => bindAll visit ds (Keyed.put d ref scope) a

/-- What the host is given of a record with code. -/
def given (importer : Importer) (r : CompiledRecord) (scope : Scope F) (compiled : String) :
    HostModule F :=
  { specifier := r.specifier
    code := Compile.withOrigin compiled r.specifier
    kind := if r.report.isModule then .module else .script
    scope
    importer }

/-- Has the host instantiate a module whose dependencies are bound. -/
def instantiate (host : Host F σ) (importer : Importer) (r : CompiledRecord) (scope : Scope F)
    (a : Assembly F σ) : Outcome F σ (ModuleRef F) :=
  match r.readyCode? with
  | none => (.error (.notResolved r.specifier), a)
  | some compiled =>
    let m := given importer r scope compiled
    let a := a.log (.instantiating r.specifier r.report.isModule scope.length)
    match host.instantiate a.registry m a.host with
    | (.error e, h) => (.error e, { a with host := h })
    | (.ok exports, h) =>
      (.ok (.loaded (m.loaded exports)),
        { a with host := h, registry := a.registry.fill r.specifier (m.loaded exports) })

/-- The dependency `s` of the first module of a path. `fuel` exceeds the number of records that
are not on the path. -/
def loadRef (host : Host F σ) (importer : Importer) (g : Graph) :
    Nat → List Specifier → Specifier → Assembly F σ → Outcome F σ (ModuleRef F)
  | 0, _, s, a => (.error (.notResolved s), a)
  | fuel + 1, path, s, a =>
    let a := a.allocate s
    match a.registry.get? s with
    | some m => (.ok (.loaded m), a)
    | none =>
      if path.contains s then
        let requester := path.headD s
        (.ok (.forwarded ⟨s, requester, a.registry.slot s⟩), a.log (.circularImport s requester))
      else
        match g.get? s with
        | none => (.error (.notResolved s), a)
        | some r =>
          match bindAll (loadRef host importer g fuel (s :: path)) r.report.static [] a with
          | (.error e, a) => (.error e, a)
          | (.ok scope, a) => instantiate host importer r scope a

/-- Loads the module of an entry and everything it depends on statically. -/
def load (host : Host F σ) (importer : Importer) (g : Graph) (entry : Specifier)
    (a : Assembly F σ) : Outcome F σ (LoadedModule F) :=
  match g.awaitCode with
  | (_, .error e) => (.error e, a)
  | (g, .ok ()) =>
    match loadRef host importer g (g.size + 1) [] entry a with
    | (.error e, a) => (.error e, a)
    | (.ok ref, a) => (a.registry.moduleOf ref .exports, a)

end Assembly

end ScriptLoader
