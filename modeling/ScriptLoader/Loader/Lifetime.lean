import ScriptLoader.Loader.Request
import ScriptLoader.Source.Memory

/-!
# Lifetimes of loaders

A loader may be dropped, and another one built. The files, the host, the counters and the store of
compiles outlive it; its modules do not, and its handles lead nowhere.

* `Lifetime.restart`: builds another loader.
* `Lifetime.setSource`: changes the files.
-/

namespace ScriptLoader

/-- A loader that may be dropped, and what outlives it. -/
structure Lifetime (F σ : Type) where
  source : MemorySource
  /-- How many compiler units each loader has. -/
  units : Nat
  /-- The loader, unless it was dropped. -/
  loader? : Option (Loader F σ)
  /-- The last loader as it was. -/
  last : Loader F σ

namespace Lifetime

variable {F σ : Type}

/-- The lifetime that begins with a loader. -/
def start (source : MemorySource) (units : Nat) (l : Loader F σ) : Lifetime F σ :=
  ⟨source, units, some l, l⟩

/-- Takes what became of the loader. -/
def put (x : Lifetime F σ) (l : Loader F σ) : Lifetime F σ :=
  { x with loader? := x.loader?.map fun _ => l, last := l }

def drop (x : Lifetime F σ) : Lifetime F σ := { x with loader? := none }

/-- Changes the files. -/
def setSource (x : Lifetime F σ) (m : MemorySource) : Lifetime F σ :=
  let l := { x.last with workshop := { x.last.workshop with source := m.source } }
  { x.put l with source := m }

/-- Builds another loader. -/
def restart (x : Lifetime F σ) (refresh : Bool) : Lifetime F σ :=
  let old := x.last
  let l : Loader F σ :=
    { number := old.number + 1
      settings := old.settings
      workshop := { old.workshop with refresh }
      assembly := { host := old.assembly.host, events := old.assembly.events }
      events := old.events ++ Loader.startEvents x.units old.workshop }
  { x with loader? := some l, last := l }

end Lifetime

end ScriptLoader
