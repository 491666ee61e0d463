import ScriptLoader.Cache.Checksum
import ScriptLoader.Json.Basic
import ScriptLoader.LoadError

/-!
# Dependency graphs

The compiled modules that a request found, in the order of discovery. A module that is there keeps
its first record. Code may still be generated when the graph is complete: a record holds what its
generation comes to, and whether somebody has waited for it.

* `Graph.insert`: adds a record unless its module is there.
* `Graph.awaitCode`: waits for all code, up to the first failure.
* `Graph.summary`: the graph as a JSON value.
-/

namespace ScriptLoader

/-- A compiled module. -/
structure CompiledRecord where
  specifier : Specifier
  /-- Where the source was found. -/
  location : String
  report : Compile.Report
  /-- What the generation of code comes to. -/
  outcome : Except LoadError String
  /-- Whether somebody has waited for the code. -/
  awaited : Bool := false
  /-- Whether the compile was taken from a cache. -/
  cached : Bool := false
  /-- The checksum that the code is stored under once somebody has waited for it. -/
  checksum? : Option Cache.Checksum := none

namespace CompiledRecord

/-- The code, if it was generated. -/
def readyCode? (r : CompiledRecord) : Option String :=
  match r.awaited, r.outcome with
  | true, .ok code => some code
  | _, _ => none

end CompiledRecord

/-- The compiled modules of a request. -/
structure Graph where
  entries : List Specifier := []
  records : List CompiledRecord := []

namespace Graph

def get? (g : Graph) (s : Specifier) : Option CompiledRecord :=
  g.records.find? fun r => r.specifier = s

def contains (g : Graph) (s : Specifier) : Bool := (g.get? s).isSome

def size (g : Graph) : Nat := g.records.length

/-- Adds a record unless its module is there. -/
def insert (g : Graph) (r : CompiledRecord) : Graph :=
  if g.contains r.specifier then g else { g with records := g.records ++ [r] }

/-- The modules of the records, in order. -/
def specifiers (g : Graph) : List Specifier := g.records.map (·.specifier)

theorem specifier_of_get? {g : Graph} {s : Specifier} {r : CompiledRecord}
    (h : g.get? s = some r) : r.specifier = s := by
  simpa using List.find?_some h

theorem mem_of_get? {g : Graph} {s : Specifier} {r : CompiledRecord} (h : g.get? s = some r) :
    r ∈ g.records := List.mem_of_find?_eq_some h

theorem contains_iff {g : Graph} {s : Specifier} : g.contains s = true ↔ s ∈ g.specifiers := by
  simp [contains, get?, specifiers]

theorem records_insert_of_notMem {g : Graph} {r : CompiledRecord}
    (h : r.specifier ∉ g.specifiers) : (g.insert r).records = g.records ++ [r] := by
  have hc : ¬ g.contains r.specifier = true := fun hc => h (contains_iff.1 hc)
  simp [insert, hc]

/-- The graph of records inserted one after the other. -/
def ofRecords (entries : List Specifier) (records : List CompiledRecord) : Graph :=
  records.foldl insert { entries }

/-- Waits for the code of records in their order, up to the first failure. -/
def awaitRecords : List CompiledRecord → List CompiledRecord × Except LoadError Unit
  | [] => ([], .ok ())
  | r :: rs =>
    match r.outcome with
    | .error e => ({ r with awaited := true } :: rs, .error e)
    | .ok _ =>
      let (rs, result) := awaitRecords rs
      ({ r with awaited := true } :: rs, result)

/-- Waits for all code. -/
def awaitCode (g : Graph) : Graph × Except LoadError Unit :=
  let (records, result) := awaitRecords g.records
  ({ g with records }, result)

end Graph

/-! ## Graphs as JSON values -/

/-- Specifiers as an array of texts. -/
def Specifier.array (ss : List Specifier) : Json := Json.strings (ss.map (·.text))

def CompiledRecord.summary (r : CompiledRecord) : Json :=
  .object
    [("specifier", .string r.specifier.text), ("location", .string r.location),
      ("is_module_source", .bool r.report.isModule),
      ("static_deps", Specifier.array r.report.static),
      ("dynamic_deps", Specifier.array r.report.dynamic), ("from_cache", .bool r.cached)]

/-- The entries of a graph, and for each module where it was found, what it depends on and whether
its compile was stored. -/
def Graph.summary (g : Graph) : Json :=
  .object [("entries", Specifier.array g.entries),
    ("modules", .array (g.records.map CompiledRecord.summary))]

end ScriptLoader
