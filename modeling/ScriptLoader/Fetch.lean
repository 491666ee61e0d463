import ScriptLoader.Log.Event
import ScriptLoader.Source.Basic

/-!
# Fetching the source of a module

A specifier with the extension of a source is fetched as it is; one that ends in `.js` and is not
there may be a typed source beside it. Any other specifier is completed: the candidates of a stage
are asked for together and the first that answers with a text wins, and a later stage is begun only
when all of an earlier one have failed.

* `Fetch.plan`: the stages of candidates.
* `Fetch.race`: the candidates of a stage against each other.
* `Fetch.run`: the text of a module, or every candidate with its failure.
* `Fetch.events`: what fetching a module logs.
-/

namespace ScriptLoader.Fetch

/-- The candidates of a specifier, stage by stage. -/
def plan (s : Specifier) (markup : Bool) : List (List String) :=
  match s.explicitExtension? with
  | some ext =>
    if ext = "js" then [[s.text], [String.ofList (s.text.toList.dropLast.dropLast ++ ['t', 's'])]]
    else [[s.text]]
  | none =>
    [if markup then [s.withExtension "ts", s.withExtension "tsx"] else [s.withExtension "ts"],
      [s.withExtension "js"]]

/-- A text and where it was found. -/
structure Found where
  location : String
  text : String
  deriving DecidableEq, Inhabited

/-- How a race went. -/
structure Race where
  /-- The locations that were asked for, in order. -/
  requested : List String := []
  /-- Those that answered without a text before the race was over, in order. -/
  failed : List Attempt := []
  winner : Option Found := none
  deriving DecidableEq, Inhabited

/-- The first of some answers that is a text, and the failures before it. -/
def firstText (retrieve : String → Except RetrievalError String) :
    List String → List Attempt × Option Found
  | [] => ([], none)
  | l :: rest =>
    match retrieve l with
    | .ok text => ([], some ⟨l, text⟩)
    | .error e =>
      let (failed, winner) := firstText retrieve rest
      (⟨l, e.text⟩ :: failed, winner)

/-- The locations that are asked for: the answer of one that has a text at once ends the asking. -/
def asked (src : Source) : List String → List String
  | [] => []
  | l :: rest =>
    if (src.delay? l).isNone && (src.retrieve l).isOk then [l] else l :: asked src rest

/-- Locations in the order of their answers: those that answer at once, then the others by the time
they take. -/
def answerOrder (src : Source) (locations : List String) : List String :=
  let later := (locations.filter fun l => (src.delay? l).isSome).mergeSort fun a b =>
    (src.delay? a).getD 0 ≤ (src.delay? b).getD 0
  locations.filter (fun l => (src.delay? l).isNone) ++ later

/-- The race of the candidates of a stage. -/
def race (src : Source) (candidates : List String) : Race :=
  let requested := asked src candidates
  let (failed, winner) := firstText src.retrieve (answerOrder src requested)
  { requested, failed, winner }

/-- The stages of a plan one after the other, up to a text. -/
def runStages (src : Source) : List (List String) → Race
  | [] => {}
  | stage :: stages =>
    let first := race src stage
    match first.winner with
    | some _ => first
    | none =>
      let rest := runStages src stages
      { requested := first.requested ++ rest.requested
        failed := first.failed ++ rest.failed
        winner := rest.winner }

/-- The text of a module, and what was asked for. -/
def run (src : Source) (s : Specifier) (markup : Bool) : Except LoadError Found × List String :=
  let r := runStages src (plan s markup)
  match r.winner with
  | some found => (.ok found, r.requested)
  | none => (.error (.notFetched s r.failed), r.requested)

/-- What fetching a module logs: the candidates that failed, and the one that won. -/
def events (src : Source) (s : Specifier) (markup : Bool) : List Log.Event :=
  let r := runStages src (plan s markup)
  r.failed.map (fun a => .candidateFailed a.location a.reason) ++
    r.winner.toList.map fun found => .fetched s found.location

end ScriptLoader.Fetch
