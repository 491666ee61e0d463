import ScriptLoader.Specifier.Basic

/-!
# Why a load fails

Every cause that can end a request to load a module, and its wording.

* `LoadError.message`: the text of a failure.
* `LoadError.specifier?`: the module that a failure is about, if it is about one.
-/

namespace ScriptLoader

/-- A location that was asked for a source, and why it gave none. -/
structure Attempt where
  location : String
  reason : String
  deriving DecidableEq, Inhabited

/-- What was asked of a module that had not finished loading. -/
inductive Access where
  | get (name : String)
  | call (name : String)
  | exports
  deriving DecidableEq, Inhabited

def Access.text : Access → String
  | .get name => s!"get field '{name}'"
  | .call name => s!"call {name}()"
  | .exports => "read the exports"

/-- Why a request to load a module fails. -/
inductive LoadError where
  /-- No location of the module has a source. -/
  | notFetched (specifier : Specifier) (attempted : List Attempt)
  /-- The source could not be compiled. -/
  | notCompiled (specifier : Specifier) (reason : String) (stack : Option String)
  /-- A module of a cycle was used before it was there. -/
  | circular (target requester : Specifier) (access : Access)
  /-- More modules were discovered than a request may have. -/
  | notConverged (budget : Nat)
  /-- A compiler unit said something that its job did not call for. -/
  | unexpectedMessage (unit : Nat) (kind : String)
  /-- There is no compiler unit left, or no loader. -/
  | unavailable (reason : String)
  /-- The host refused the module. -/
  | evaluation (specifier : Specifier) (reason : String)
  /-- The module is neither loaded nor part of the graph. -/
  | notResolved (specifier : Specifier)
  /-- A text is no specifier. -/
  | invalidSpecifier (raw reason : String)
  deriving DecidableEq, Inhabited

namespace LoadError

/-- The locations that were tried. -/
def attemptsText : List Attempt → String
  | [] => "nothing"
  | attempts => ", ".intercalate (attempts.map fun a => s!"{a.location} ({a.reason})")

/-- The text of a failure. -/
def message : LoadError → String
  | notFetched s attempts =>
    s!"module '{s.text}' could not be fetched (tried {attemptsText attempts})"
  | notCompiled s reason _ => s!"failed to compile '{s.text}': {reason}"
  | circular target requester access =>
    s!"tried to {access.text} on circular reference '{target.text}' before it finished loading " ++
      s!"(imported by '{requester.text}')"
  | notConverged budget => s!"dependency resolution did not converge within {budget} steps"
  | unexpectedMessage unit kind => s!"compiler unit {unit} sent an unexpected {kind} message"
  | unavailable reason => s!"compiler pool unavailable: {reason}"
  | evaluation s reason => s!"failed to evaluate '{s.text}': {reason}"
  | notResolved s => s!"module '{s.text}' is not part of the resolved graph"
  | invalidSpecifier raw reason => s!"invalid module specifier '{raw}': {reason}"

/-- The module that a failure is about. -/
def specifier? : LoadError → Option Specifier
  | notFetched s _ | notCompiled s _ _ | evaluation s _ | notResolved s => some s
  | circular _ requester _ => some requester
  | _ => none

/-- A text that is no specifier, as a failure. -/
def ofFault (raw : String) (fault : SpecifierFault) : LoadError :=
  invalidSpecifier raw fault.message

end LoadError

end ScriptLoader
