import ScriptLoader.Graph.Basic

/-!
# Resolving a graph

A resolution grows a graph from some entries. A module is pending from its discovery until its
record or a failure is there; the dependencies of a record are discovered in its order of import,
the static ones first. What is known, pending or skipped is not discovered again. A resolution ends
with the first failure, and it may take no more records than its limit.

* `Resolution.start`, `Resolution.finish`: the two steps, whatever order modules finish in.
* `Resolution.Reaches`, `Resolution.Returns`: every course that a resolution may take, and what it
  may come to.
-/

namespace ScriptLoader

/-- A graph that is being resolved. -/
structure Resolution where
  graph : Graph
  /-- The modules whose records are awaited, in the order of discovery. -/
  pending : List Specifier := []
  /-- How many records a resolution may take. -/
  limit : Nat
  /-- How many of them are left. -/
  budget : Nat

namespace Resolution

/-- The modules of a list that are to be discovered, each once. -/
def fresh (skip : Specifier → Bool) (r : Resolution) (found : List Specifier) : List Specifier :=
  (found.filter fun s => !(r.graph.contains s || r.pending.contains s || skip s)).eraseDups

/-- Adds the modules of a list that are to be discovered. Returns them, too: the operations that
make their records start. -/
def discover (skip : Specifier → Bool) (found : List Specifier) (r : Resolution) :
    Resolution × List Specifier :=
  let new := r.fresh skip found
  ({ r with pending := r.pending ++ new }, new)

/-- A resolution of entries, and the modules whose operations start. -/
def start (skip : Specifier → Bool) (limit : Nat) (entries : List Specifier) :
    Resolution × List Specifier :=
  discover skip entries { graph := { entries }, limit, budget := limit }

/-- What a record names: the static dependencies and then the others. -/
def dependencies (r : CompiledRecord) : List Specifier := r.report.static ++ r.report.dynamic

/-- Takes a record, whose module is no longer pending. -/
def take (record : CompiledRecord) (r : Resolution) : Resolution :=
  { r with
    graph := r.graph.insert record
    pending := r.pending.erase record.specifier
    budget := r.budget - 1 }

/-- Takes what became of a pending module. Returns the modules whose operations start, too. -/
def finish (skip : Specifier → Bool) (outcome : Except LoadError CompiledRecord)
    (r : Resolution) : Except LoadError (Resolution × List Specifier) :=
  if r.budget = 0 then .error (.notConverged r.limit)
  else
    match outcome with
    | .error e => .error e
    | .ok record => .ok (discover skip (dependencies record) (r.take record))

theorem finish_eq_ok_iff {skip : Specifier → Bool} {outcome : Except LoadError CompiledRecord}
    {r : Resolution} {next : Resolution × List Specifier} :
    finish skip outcome r = .ok next ↔ r.budget ≠ 0 ∧ ∃ record, outcome = .ok record ∧
      discover skip (dependencies record) (r.take record) = next := by
  unfold finish
  split
  · next h => simp [h]
  · next h => cases outcome <;> simp [h]

theorem budget_finish {skip : Specifier → Bool} {outcome : Except LoadError CompiledRecord}
    {r : Resolution} {next : Resolution × List Specifier}
    (h : finish skip outcome r = .ok next) : next.1.budget < r.budget := by
  obtain ⟨hb, record, -, rfl⟩ := finish_eq_ok_iff.1 h
  simp only [discover, take]
  omega

/-! ## Any order -/

/-- What the operations of modules come to: a record of the module, or a failure. -/
structure Outcomes where
  of : Specifier → Except LoadError CompiledRecord
  specifier_eq : ∀ {s : Specifier} {r : CompiledRecord}, of s = .ok r → r.specifier = s

/-- A resolution and the operations that make its records. -/
structure Course where
  resolution : Resolution
  /-- The modules whose operations have not completed. -/
  inFlight : List Specifier
  /-- The modules whose operations were started, in order. -/
  started : List Specifier

/-- The course that a resolution of entries starts with. -/
def Course.start (skip : Specifier → Bool) (limit : Nat) (entries : List Specifier) : Course :=
  let (resolution, new) := Resolution.start skip limit entries
  ⟨resolution, new, new⟩

/-- The courses that are reached from another when operations complete in any order. -/
inductive Reaches (skip : Specifier → Bool) (outcomes : Outcomes) : Course → Course → Prop where
  | refl (c : Course) : Reaches skip outcomes c c
  | complete {c middle : Course} {s : Specifier} {next : Resolution} {new : List Specifier} :
    Reaches skip outcomes c middle → s ∈ middle.inFlight →
    finish skip (outcomes.of s) middle.resolution = .ok (next, new) →
    Reaches skip outcomes c ⟨next, middle.inFlight.erase s ++ new, middle.started ++ new⟩

theorem Reaches.trans {skip : Specifier → Bool} {outcomes : Outcomes} {a b c : Course}
    (h : Reaches skip outcomes a b) (k : Reaches skip outcomes b c) :
    Reaches skip outcomes a c := by
  induction k with
  | refl => exact h
  | complete _ hs hf ih => exact .complete ih hs hf

/-- What a course comes to: its graph when no operation is left, or else the failure of one. -/
inductive Returns (skip : Specifier → Bool) (outcomes : Outcomes) :
    Course → Except LoadError Graph → Prop where
  | graph {c : Course} : c.inFlight = [] → Returns skip outcomes c (.ok c.resolution.graph)
  | failure {c : Course} {s : Specifier} {e : LoadError} : s ∈ c.inFlight →
    finish skip (outcomes.of s) c.resolution = .error e → Returns skip outcomes c (.error e)

end Resolution

end ScriptLoader
