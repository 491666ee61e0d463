import ScriptLoader.Proofs.Sharing.Conduct
import ScriptLoader.Resolution.Basic

/-!
# What a request does

The conduct of a request for the module of an entry. It looks the entry up, resolves its graph with
one look-up at a time, waits for all code, follows the static dependencies of its records to take
prepared modules in, waits for the lock, assembles, keeps what is left over and lets go of the lock.

While a request follows dependencies others may prepare new modules, so that nothing bounds how far
it goes. `patience` bounds it here: every walk that comes to an end does so with patience enough.

* `Sharing.request`: the whole conduct.
* `Sharing.behindGraph`, `Sharing.assemble`, `Sharing.behindAssembly`: what is left of it behind
  the resolution, behind the taking in and behind the assembly.
-/

namespace ScriptLoader

/-- The record of a prepared module, if it was compiled under options. -/
def Prepared.under? (options : Compile.Options) : Option Prepared → Option CompiledRecord
  | some p => if p.options = options then some p.record else none
  | none => none

namespace Sharing

open Conduct

variable {F : Type}

/-! ## Resolving -/

/-- Whether a request under options does not resolve a module. -/
def skips (options : Compile.Options) (s : Specifier) : Conduct F Bool := do
  match ← perform (.look s) with
  | some _ => return true
  | none => return (Prepared.under? options (← perform (.seek s))).isSome

/-- Adds the modules of a list that are to be discovered, one after the other. -/
def discover (options : Compile.Options) : List Specifier → Resolution → Conduct F Resolution
  | [], r => return r
  | s :: found, r =>
    if r.graph.contains s || r.pending.contains s then discover options found r
    else do
      if ← skips options s then discover options found r
      else discover options found { r with pending := r.pending ++ [s] }

/-- A resolution from its first record that is awaited to its end, while it may take `budget`
records. -/
def resolve (options : Compile.Options) : Nat → Resolution → Conduct F (Except LoadError Graph)
  | 0, r =>
    if r.pending = [] then return .ok r.graph
    else do
      let _ ← perform (.await options r.pending)
      return .error (.notConverged r.limit)
  | budget + 1, r =>
    if r.pending = [] then return .ok r.graph
    else do
      let (_, outcome) ← perform (.await options r.pending)
      match outcome with
      | .error e => return .error e
      | .ok record =>
        resolve options budget (← discover options (Resolution.dependencies record) (r.take record))

/-! ## Taking prepared modules in -/

/-- Adds the record of a module that is not loaded, if the graph lacks it and it is prepared. -/
def takeIn (options : Compile.Options) (s : Specifier) (g : Graph) : Conduct F Graph :=
  if g.contains s then return g
  else do
    match Prepared.under? options (← perform (.seek s)) with
    | some r => return g.insert r
    | none => return g

/-- Follows the static dependencies of the modules on a stack, and takes prepared ones into a
graph. -/
def follow (options : Compile.Options) : Nat → List Specifier → List Specifier → Graph →
    Conduct F Graph
  | 0, _, _, g => return g
  | _ + 1, _, [], g => return g
  | patience + 1, visited, s :: stack, g =>
    if visited.contains s then follow options patience visited stack g
    else do
      match ← perform (.look s) with
      | some _ => follow options patience (visited ++ [s]) stack g
      | none =>
        let g ← takeIn options s g
        match g.get? s with
        | some r => follow options patience (visited ++ [s]) (r.report.static.reverse ++ stack) g
        | none => follow options patience (visited ++ [s]) stack g

/-! ## Assembling -/

/-- Binds dependencies one after the other. -/
def bindAll (visit : Specifier → Conduct F (Except LoadError (ModuleRef F))) :
    List Specifier → Scope F → Conduct F (Except LoadError (Scope F))
  | [], scope => return .ok scope
  | d :: ds, scope => do
    match ← visit d with
    | .error e => return .error e
    | .ok ref => bindAll visit ds (Keyed.put d ref scope)

/-- Has the host instantiate a module whose dependencies are bound. -/
def instantiate (importer : Importer) (r : CompiledRecord) (scope : Scope F) :
    Conduct F (Except LoadError (ModuleRef F)) :=
  match r.readyCode? with
  | none => return .error (.notResolved r.specifier)
  | some compiled => do
    let m := Assembly.given importer r scope compiled
    match ← perform (.instantiate m) with
    | .error e => return .error e
    | .ok exports =>
      let _ ← perform (.fill r.specifier (m.loaded exports))
      return .ok (.loaded (m.loaded exports))

/-- The dependency `s` of the first module of a path. `fuel` exceeds the number of records that
are not on the path. -/
def loadRef (importer : Importer) (g : Graph) :
    Nat → List Specifier → Specifier → Conduct F (Except LoadError (ModuleRef F))
  | 0, _, s => return .error (.notResolved s)
  | fuel + 1, path, s => do
    let n ← perform (.allocate s)
    match ← perform (.peek n) with
    | some m => return .ok (.loaded m)
    | none =>
      if path.contains s then return .ok (.forwarded ⟨s, path.headD s, n⟩)
      else
        match g.get? s with
        | none => return .error (.notResolved s)
        | some r =>
          match ← bindAll (loadRef importer g fuel (s :: path)) r.report.static [] with
          | .error e => return .error e
          | .ok scope => instantiate importer r scope

/-- The module of a reference. -/
def moduleOf (ref : ModuleRef F) : Conduct F (Except LoadError (LoadedModule F)) :=
  match ref with
  | .loaded m => return .ok m
  | .forwarded s => do
    match ← perform (.peek s.slot) with
    | some m => return .ok m
    | none => return .error (s.circular .exports)

/-- Loads the module of an entry and everything it depends on statically. -/
def load (importer : Importer) (g : Graph) (entry : Specifier) :
    Conduct F (Except LoadError (LoadedModule F)) :=
  match g.awaitCode with
  | (_, .error e) => return .error e
  | (g, .ok ()) => do
    match ← loadRef importer g (g.size + 1) [] entry with
    | .error e => return .error e
    | .ok ref => moduleOf ref

/-- Keeps a record unless its module is loaded. -/
def retainRecord (options : Compile.Options) (r : CompiledRecord) : Conduct F Unit := do
  match ← perform (.look r.specifier) with
  | some _ => perform (.forget r.specifier)
  | none => perform (.keep ⟨options, r⟩)

/-- Keeps the records whose modules are not loaded. -/
def retain (options : Compile.Options) : List CompiledRecord → Conduct F Unit
  | [] => return ()
  | r :: rs => do
    let _ ← retainRecord options r
    retain options rs

/-! ## The whole request -/

/-- A request that was assembled. -/
def behindAssembly (options : Compile.Options) (g : Graph)
    (result : Except LoadError (LoadedModule F)) :
    Conduct F (Except LoadError (LoadedModule F)) := do
  let _ ← retain options g.records
  let _ ← perform .release
  return result

/-- A request whose graph is complete and has its code. -/
def assemble (importer : Importer) (options : Compile.Options) (entry : Specifier) (g : Graph) :
    Conduct F (Except LoadError (LoadedModule F)) := do
  let _ ← perform .acquire
  behindAssembly options g (← load importer g entry)

/-- A request whose resolution has come to a graph or has failed. -/
def behindGraph (patience : Nat) (importer : Importer) (options : Compile.Options)
    (entry : Specifier) :
    Except LoadError Graph → Conduct F (Except LoadError (LoadedModule F))
  | .error e => return .error e
  | .ok g =>
    match g.awaitCode with
    | (_, .error e) => return .error e
    | (g, .ok ()) => do
      assemble importer options entry (← follow options patience [] [entry] g)

/-- A request for the module of an entry under options, which may discover `limit` modules. -/
def request (limit patience : Nat) (importer : Importer) (options : Compile.Options)
    (entry : Specifier) : Conduct F (Except LoadError (LoadedModule F)) := do
  match ← perform (.look entry) with
  | some m => return .ok m
  | none =>
    let r ← discover options [entry] { graph := { entries := [entry] }, limit, budget := limit }
    behindGraph patience importer options entry (← resolve options limit r)

/-- What is asked of a loader. -/
structure Ask where
  entry : Specifier
  options : Compile.Options
  patience : Nat

/-- Several requests that have not begun. -/
def asked {σ ι : Type} (limit : Nat) (importer : Importer) (h : Shared F σ ι) (asks : ι → Ask) :
    State F σ ι (Except LoadError (LoadedModule F)) :=
  ⟨h, fun i => request limit (asks i).patience importer (asks i).options (asks i).entry⟩

end Sharing

end ScriptLoader
