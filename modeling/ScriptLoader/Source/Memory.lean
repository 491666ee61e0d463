import ScriptLoader.Json.Fields
import ScriptLoader.Keyed
import ScriptLoader.Source.Basic

/-!
# Texts held in memory

A table of texts by location. It can be told to fail for a location or to take its time, and it
counts what it was asked for. As JSON it is an object with its texts, failures and delays by
location.

* `MemorySource.source`: the source that a table is.
* `MemorySource.ofJson`: reads it.
-/

namespace ScriptLoader

/-- Texts by location. -/
structure MemorySource where
  files : Keyed String String := []
  failures : Keyed String RetrievalError := []
  delays : Keyed String Nat := []
  /-- The locations that were asked for, in order. -/
  requests : List String := []
  deriving Inhabited

namespace MemorySource

/-- What a location is answered. -/
def answer (m : MemorySource) (location : String) : Except RetrievalError String :=
  match m.failures.get? location with
  | some e => .error e
  | none =>
    match m.files.get? location with
    | some text => .ok text
    | none => .error .notFound

def source (m : MemorySource) : Source := ⟨m.answer, fun l => m.delays.get? l⟩

def insert (m : MemorySource) (location text : String) : MemorySource :=
  { m with files := m.files.put location text }

def remove (m : MemorySource) (location : String) : MemorySource :=
  { m with files := m.files.erase location }

/-- Asks for a location. -/
def retrieve (m : MemorySource) (location : String) :
    Except RetrievalError String × MemorySource :=
  (m.answer location, { m with requests := m.requests ++ [location] })

def requestCount (m : MemorySource) (location : String) : Nat := m.requests.count location

end MemorySource

/-! ## As JSON -/

section Reading

open Json.Fields

/-- A failure as an object. One of a kind that is not known is that nothing was found. -/
def RetrievalError.ofJson (j : Json) : RetrievalError :=
  match str j "kind" with
  | "Status" => .status (natOr 0 j "status")
  | "AccessDenied" => .accessDenied (str j "text")
  | "Transport" => .transport (str j "text")
  | _ => .notFound

/-- A source as an object. -/
def MemorySource.ofJson (j : Json) : MemorySource :=
  { files := (fields j "files").map fun (l, t) => (l, asStr t)
    failures := (fields j "failures").map fun (l, f) => (l, RetrievalError.ofJson f)
    delays := (fields j "latency").filterMap fun (l, d) =>
      match d with
      | .number (.int i) => some (l, i.toNat)
      | _ => none }

end Reading

end ScriptLoader
