import ScriptLoader.Loader.Basic

/-!
# Requests to a loader

A request goes through stages. Between two stages of one request others may go on; only one at a
time assembles, and it does so until it has kept what is left over.

* `Loader.advance`: takes a request one step on.
* `Loader.load`: a request from its beginning to its end.
* `Loader.advanceBy`: several requests, in any order of their steps.
* `Loader.loadAll`: several requests, each one step on in turn.
-/

namespace ScriptLoader

/-- How far a request is. -/
inductive Stage (F : Type) where
  | starting
  | resolving (r : Resolving)
  /-- The graph is complete and its code is awaited. -/
  | resolved (g : Graph)
  /-- The graph is complete and has its code; no request may be assembling. -/
  | compiled (g : Graph)
  /-- The entry was assembled or failed; what is left over is kept next. -/
  | assembled (g : Graph) (result : Except LoadError (LoadedModule F))
  | failing (e : LoadError)
  | finished (result : Except LoadError (LoadedModule F))

namespace Stage

/-- Bounds the steps that are left, where a request may discover `limit` modules. -/
def rank {F : Type} (limit : Nat) : Stage F → Nat
  | starting => limit + 6
  | resolving r => r.resolution.budget + 5
  | resolved _ => 4
  | compiled _ => 3
  | assembled .. => 2
  | failing _ => 1
  | finished _ => 0

def isFinished {F : Type} : Stage F → Bool
  | finished _ => true
  | _ => false

def isCompiled {F : Type} : Stage F → Bool
  | compiled _ => true
  | _ => false

def isAssembled {F : Type} : Stage F → Bool
  | assembled .. => true
  | _ => false

/-- What the request came to, if it is at its end. -/
def result? {F : Type} : Stage F → Option (Except LoadError (LoadedModule F))
  | finished r => some r
  | _ => none

end Stage

/-- A request for the module of an entry. -/
structure LoadRequest (F : Type) where
  entry : Specifier
  options : Compile.Options
  stage : Stage F := .starting

namespace Loader

variable {F σ : Type}

/-- The stage behind a stage. -/
def nextStage (host : Host F σ) (entry : Specifier) (options : Compile.Options) (l : Loader F σ) :
    Stage F → Stage F × Loader F σ
  | .starting =>
    match l.registry.get? entry with
    | some m => (.finished (.ok m), l.log (.alreadyLoaded entry))
    | none =>
      (.resolving (.start (l.skips options) l.settings.limit [entry]), l.log (.loading entry))
  | .resolving r =>
    match r.step (l.skips options) options l.workshop with
    | (.inl (.ok g), workshop) => (.resolved g, { l with workshop })
    | (.inl (.error e), workshop) => (.failing e, { l with workshop })
    | (.inr ⟨next, _⟩, workshop) => (.resolving next, { l with workshop })
  | .resolved g =>
    match l.workshop.awaitCode g with
    | ((g, .ok ()), workshop) =>
      let (g, l) := { l with workshop }.adopt options entry g
      (.compiled g, l)
    | ((_, .error e), workshop) => (.failing e, { l with workshop })
  | .compiled g =>
    let (result, l) := l.assemble host g entry
    (.assembled g result, l)
  | .assembled g result =>
    let l := l.retain options g
    match result with
    | .ok m => (.finished (.ok m), l)
    | .error e => (.failing e, l)
  | .failing e => (.finished (.error e), (l.log (.loadFailed entry e)).discardCache)
  | .finished result => (.finished result, l)

theorem settings_retain (l : Loader F σ) (options : Compile.Options) (g : Graph) :
    (l.retain options g).settings = l.settings := by
  unfold retain
  induction g.records generalizing l with
  | nil => rfl
  | cons r rs ih => exact ih _

theorem settings_nextStage (host : Host F σ) (entry : Specifier) (options : Compile.Options)
    (l : Loader F σ) (st : Stage F) :
    (l.nextStage host entry options st).2.settings = l.settings := by
  cases st with
  | starting =>
    simp only [nextStage]
    split <;> rfl
  | resolving r =>
    simp only [nextStage]
    split <;> rfl
  | resolved g =>
    simp only [nextStage]
    split <;> rfl
  | compiled g => rfl
  | assembled g result =>
    simp only [nextStage]
    split <;> exact settings_retain l options g
  | failing e =>
    simp only [nextStage, discardCache]
    rfl
  | finished result => rfl

theorem rank_nextStage (host : Host F σ) (entry : Specifier) (options : Compile.Options)
    (l : Loader F σ) (st : Stage F) (h : st.isFinished = false) :
    (l.nextStage host entry options st).1.rank l.settings.limit < st.rank l.settings.limit := by
  cases st with
  | starting =>
    simp only [nextStage]
    split
    · simp [Stage.rank]
    · simp [Stage.rank, Resolving.start, Resolution.start, Resolution.discover]
  | resolving r =>
    simp only [nextStage]
    split
    · simp [Stage.rank]
    · simp [Stage.rank]
    · next hn _ _ => simpa [Stage.rank] using hn
  | resolved g =>
    simp only [nextStage]
    split <;> simp [Stage.rank]
  | compiled g => simp [nextStage, Stage.rank]
  | assembled g result =>
    simp only [nextStage]
    split <;> simp [Stage.rank]
  | failing e => simp [nextStage, Stage.rank]
  | finished result => simp [Stage.isFinished] at h

/-- Takes a request one step on. -/
def advance (host : Host F σ) (l : Loader F σ) (q : LoadRequest F) : LoadRequest F × Loader F σ :=
  let (stage, l) := l.nextStage host q.entry q.options q.stage
  ({ q with stage }, l)

/-- A request from a stage to its end. -/
def runFrom (host : Host F σ) (entry : Specifier) (options : Compile.Options) (l : Loader F σ)
    (st : Stage F) : Except LoadError (LoadedModule F) × Loader F σ :=
  match _unfinished : st.result? with
  | some result => (result, l)
  | none =>
    runFrom host entry options (l.nextStage host entry options st).2
      (l.nextStage host entry options st).1
termination_by st.rank l.settings.limit
decreasing_by
  rw [settings_nextStage]
  exact rank_nextStage host entry options l st
    (by cases st <;> simp_all [Stage.result?, Stage.isFinished])

/-- Loads the module of a specifier. -/
def loadSpecifier (host : Host F σ) (l : Loader F σ) (entry : Specifier)
    (options : Compile.Options) : Except LoadError (LoadedModule F) × Loader F σ :=
  l.runFrom host entry options .starting

/-- The specifier that a text is read as. -/
def parseEntry (raw : String) : Except LoadError Specifier :=
  (Specifier.parse raw).mapError fun e => .invalidSpecifier raw e.message

/-- Loads the module of an entry under options. -/
def load (host : Host F σ) (l : Loader F σ) (raw : String) (options : Compile.Options) :
    Except LoadError (LoadedModule F) × Loader F σ :=
  match parseEntry raw with
  | .error e => (.error e, l)
  | .ok entry => l.loadSpecifier host entry options

/-- Imports a module at run time from the module at a location. -/
def importDynamic (host : Host F σ) (l : Loader F σ) (raw base : String) :
    Except LoadError (LoadedModule F) × Loader F σ :=
  match Specifier.resolve raw base with
  | .error e => (.error (.invalidSpecifier raw e.message), l)
  | .ok s => (l.log (.dynamicImport raw base s)).loadSpecifier host s l.settings.options

/-! ## Handles -/

/-- Whether a handle reaches a loader that is still there. -/
def reaches (i : Importer) (l? : Option (Loader F σ)) : Bool :=
  match l? with
  | some l => i.loader? = some l.number
  | none => false

/-- Imports through a handle. -/
def importThrough (host : Host F σ) (i : Importer) (l? : Option (Loader F σ)) (raw base : String) :
    Except LoadError (LoadedModule F) × Option (Loader F σ) :=
  match l? with
  | some l =>
    if i.loader? = some l.number then
      let (result, l) := l.importDynamic host raw base
      (result, some l)
    else (.error (.unavailable "module loader has been dropped"), some l)
  | none => (.error (.unavailable "module loader has been dropped"), none)

/-! ## Several requests -/

/-- Whether a request waits for another one that is assembling. -/
def isBlocked (qs : List (LoadRequest F)) (q : LoadRequest F) : Bool :=
  q.stage.isCompiled && qs.any fun other => other.stage.isAssembled

/-- Takes the request with an index one step on, unless it has to wait. -/
def advanceAt (host : Host F σ) (state : Loader F σ × List (LoadRequest F)) (i : Nat) :
    Loader F σ × List (LoadRequest F) :=
  match state.2[i]? with
  | none => state
  | some q =>
    if isBlocked state.2 q then state
    else
      let (q, l) := state.1.advance host q
      (l, state.2.set i q)

/-- Takes requests on in the order of a list of indices. -/
def advanceBy (host : Host F σ) (state : Loader F σ × List (LoadRequest F)) (order : List Nat) :
    Loader F σ × List (LoadRequest F) :=
  order.foldl (advanceAt host) state

/-- Rounds in which every request takes a step, until all are at their end. -/
def rounds (host : Host F σ) : Nat → Loader F σ × List (LoadRequest F) →
    Loader F σ × List (LoadRequest F)
  | 0, state => state
  | n + 1, state =>
    if state.2.all fun q => q.stage.isFinished then state
    else rounds host n (advanceBy host state (List.range state.2.length))

/-- A request for the module of a text. -/
def request (raw : String) (options : Compile.Options) : LoadRequest F :=
  match parseEntry raw with
  | .ok entry => { entry, options }
  | .error e => { entry := ⟨raw⟩, options, stage := .finished (.error e) }

/-- Loads several modules at a time. The rounds suffice: a request takes a step for each module that
it may discover and few others, and each waits at most once for each of the others. -/
def loadAll (host : Host F σ) (l : Loader F σ) (raws : List String) (options : Compile.Options) :
    List (Except LoadError (LoadedModule F)) × Loader F σ :=
  let (l, requests) := rounds host (l.settings.limit + raws.length + 8)
    (l, raws.map fun raw => request raw options)
  (requests.filterMap fun q => q.stage.result?, l)

end Loader

end ScriptLoader
