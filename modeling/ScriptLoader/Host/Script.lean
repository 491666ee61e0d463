import ScriptLoader.Compile.Lines
import ScriptLoader.Host.Basic
import ScriptLoader.Json.Fields

/-!
# Scripted hosts

A host that runs a list of actions for a module instead of its code. A module without a list exports
the values that its code declares line by line. What actions find is written to a protocol.

* `Callable.apply`: what a function exported by a script does.
* `Script.host`: the host.

As JSON a script is an array of objects. The field `do` names the action, and the other fields are
its operands; a true field `try` has the script go on when the action fails.

* `Script.scriptsOf`: reads scripts.
-/

namespace ScriptLoader.Script

/-- A function that a script exports. What it refers to was looked up when it was made. -/
inductive Callable where
  | const (value : Json)
  /-- Returns the arguments. -/
  | arguments
  /-- Returns the arguments inside an object. -/
  | wrapped
  | fail (owner : Specifier) (message : String)
  | callExport (ref : ModuleRef Callable) (name : String)
  | readExport (ref : ModuleRef Callable) (name : String)
  | callBinding (binding : Binding Callable)
  | readBinding (binding : Binding Callable)
  /-- Refers to something that was not there. -/
  | missing
  deriving Inhabited

/-- A binding as a value. -/
def bindingJson {F : Type} : Option (Binding F) → Json
  | none => .null
  | some (.value v) => Json.ofFields [("value", v)]
  | some (.function _) => .string "function"
  | some (.deferred s name) =>
    Json.ofFields [("deferred", .array [.string s.target.text, .string name])]

/-- Exports as a value. -/
def exportsJson {F : Type} (exports : Exports F) : Json :=
  .array (exports.map fun (name, b) => .array [.string name, bindingJson (some b)])

/-- A failure of the script itself. -/
def scriptError (message : String) : LoadError := .evaluation ⟨"driver"⟩ message

/-- What a chain of names or calls without an end comes to. -/
def ofChain {α : Type} (answer : Option (Except LoadError α)) : Except LoadError α :=
  answer.getD (.error (scriptError "endless chain"))

/-- What a binding stands for now, as a value. -/
def currentJson (r : Registry Callable) (b : Binding Callable) : Except LoadError Json :=
  (ofChain (r.current b)).map bindingJson

/-- Calls a binding. -/
def callBinding (r : Registry Callable) (apply : Callable → Except LoadError Json) :
    Binding Callable → Except LoadError Json
  | .value _ => .error (scriptError "not callable")
  | .function f => apply f
  | .deferred s name => ofChain (r.callDeferred apply s name)

/-- Calls a function. `depth` bounds the calls inside calls. -/
def Callable.apply (r : Registry Callable) (args : List Json) :
    Nat → Callable → Except LoadError Json
  | _, const v => .ok v
  | _, arguments => .ok (.array args)
  | _, wrapped => .ok (Json.ofFields [("got", .array args)])
  | _, fail owner message => .error (.evaluation owner message)
  | _, missing => .error (scriptError "missing reference")
  | _, readExport ref name =>
    match r.export? ref name with
    | none => .ok .null
    | some b => currentJson r b
  | _, readBinding b => currentJson r b
  | 0, callExport _ _ => .error (scriptError "endless chain")
  | 0, callBinding _ => .error (scriptError "endless chain")
  | depth + 1, callExport ref name => ofChain (r.callRef (apply r args depth) ref name)
  | depth + 1, callBinding b => Script.callBinding r (apply r args depth) b

/-- How many calls may be inside each other. -/
def callDepth : Nat := 256

/-- Calls a function. -/
def call (r : Registry Callable) (args : List Json) (f : Callable) : Except LoadError Json :=
  f.apply r args callDepth

/-! ## Actions -/

/-- A function as a script writes it. -/
inductive FunctionSpec where
  | const (value : Json)
  | arguments
  | fail (message : String)
  | callExport (dependency name : String)
  | readExport (dependency name : String)
  | callVariable (name : String)
  | readVariable (name : String)

/-- A step of a script. -/
inductive Action where
  /-- Describes what the module sees. -/
  | scope
  | code
  | take (dependency name : String) (target : Option String)
  | current (name : String)
  | callVariable (name : String) (args : List Json)
  | callExport (dependency name : String) (args : List Json)
  | exports (dependency : String)
  | exportValue (name : String) (value : Json)
  | exportVariable (name source : String)
  | exportFunction (name : String) (function : FunctionSpec)
  /-- Exports what the code declares. -/
  | declared
  /-- Keeps the importer for later. -/
  | capture
  /-- Fails, in the first runs only if their number is given. -/
  | fail (message : String) (times : Option Nat)
  | unknown

/-- A step, and whether the script goes on when it fails. -/
structure Step where
  action : Action
  tolerant : Bool := false

/-- The state of a scripted host. -/
structure State where
  scripts : List (String × List Step) := []
  /-- The modules that were instantiated, failed ones too. -/
  evaluated : List Specifier := []
  /-- The code that was last given for a module. -/
  codes : Keyed String String := []
  /-- What actions found, in order. -/
  protocol : List (Specifier × Except LoadError Json) := []
  captured : Option Importer := none
  deriving Inhabited

/-- The state of a script that is running. -/
structure Run where
  exports : Exports Callable := []
  held : Keyed String (Binding Callable) := []

/-- What a script looks up in, and who it belongs to. -/
structure Environment where
  owner : Specifier
  registry : Registry Callable
  reference? : String → Option (ModuleRef Callable)

/-- A function with its references looked up. -/
def FunctionSpec.close (env : Environment) (held : Keyed String (Binding Callable)) :
    FunctionSpec → Callable
  | const v => .const v
  | arguments => .arguments
  | fail message => .fail env.owner message
  | callExport d name => ((env.reference? d).map (.callExport · name)).getD .missing
  | readExport d name => ((env.reference? d).map (.readExport · name)).getD .missing
  | callVariable v => ((held.get? v).map .callBinding).getD .missing
  | readVariable v => ((held.get? v).map .readBinding).getD .missing

/-- The values that code declares, as exports. -/
def declaredExports (code : String) : Exports Callable :=
  (Compile.Lines.declared code).map fun (name, v) => (name, .value v)

/-- What the module sees, as a value. -/
def scopeJson (r : Registry Callable) (m : HostModule Callable) : Json :=
  Json.ofFields
    [("owner", .string m.specifier.text), ("kind", .string m.kind.name),
      ("len", .ofNat m.scope.length), ("empty", .bool m.scope.isEmpty),
      ("attached", .bool m.importer.loader?.isSome),
      ("deps", .array (m.scope.map fun (key, ref) => .array
        [.string key.text, .string ref.specifier.text, .bool ref.isForwarded,
          .bool (r.loaded? ref).isSome]))]

def notInScope : Except LoadError Json := .ok (.string "not in scope")

def noVariable : Except LoadError Json := .ok (.string "no variable")

/-- Runs an action. `runs` counts the runs of the script, this one included. -/
def runAction (env : Environment) (m : HostModule Callable) (runs : Nat) (run : Run) :
    Action → Except LoadError Json × Run
  | .scope => (.ok (scopeJson env.registry m), run)
  | .code => (.ok (.string m.code), run)
  | .take d name target =>
    match env.reference? d with
    | none => (notInScope, run)
    | some ref =>
      let b := env.registry.export? ref name
      let run := match target, b with
        | some v, some b => { run with held := run.held.put v b }
        | _, _ => run
      (.ok (bindingJson b), run)
  | .current v =>
    match run.held.get? v with
    | none => (noVariable, run)
    | some b => (currentJson env.registry b, run)
  | .callVariable v args =>
    match run.held.get? v with
    | none => (noVariable, run)
    | some b => (callBinding env.registry (call env.registry args) b, run)
  | .callExport d name args =>
    match env.reference? d with
    | none => (notInScope, run)
    | some ref => (ofChain (env.registry.callRef (call env.registry args) ref name), run)
  | .exports d =>
    match env.reference? d with
    | none => (notInScope, run)
    | some ref => ((env.registry.exportsOf ref).map exportsJson, run)
  | .exportValue name v => (.ok .null, { run with exports := run.exports.put name (.value v) })
  | .exportVariable name v =>
    match run.held.get? v with
    | none => (noVariable, run)
    | some b => (.ok .null, { run with exports := run.exports.put name b })
  | .exportFunction name f =>
    let f := f.close env run.held
    (.ok .null, { run with exports := run.exports.put name (.function f) })
  | .declared =>
    (.ok .null, { run with exports := Keyed.putAll (declaredExports m.code) run.exports })
  | .capture => (.ok .null, run)
  | .fail message times =>
    if times.all (runs ≤ ·) then (.error (.evaluation env.owner message), run)
    else (.ok .null, run)
  | .unknown => (.ok (.string "unknown action"), run)

/-- Runs steps up to the first that fails without being tolerated. -/
def runSteps (env : Environment) (m : HostModule Callable) (runs : Nat) :
    List Step → Run → State → Except LoadError (Exports Callable) × State
  | [], run, st => (.ok run.exports, st)
  | s :: rest, run, st =>
    let st := match s.action with
      | .capture => { st with captured := some m.importer }
      | _ => st
    match runAction env m runs run s.action with
    | (.error e, run) =>
      let st := { st with protocol := st.protocol ++ [(m.specifier, .error e)] }
      if s.tolerant then runSteps env m runs rest run st else (.error e, st)
    | (.ok v, run) =>
      let st := if v.isNull then st
        else { st with protocol := st.protocol ++ [(m.specifier, .ok v)] }
      runSteps env m runs rest run st

/-- Instantiates a module. -/
def instantiate (r : Registry Callable) (m : HostModule Callable) (st : State) :
    Except LoadError (Exports Callable) × State :=
  let st := { st with
    evaluated := st.evaluated ++ [m.specifier]
    codes := st.codes.put m.specifier.text m.code }
  match st.scripts.lookup m.specifier.text with
  | none => (.ok (declaredExports m.code), st)
  | some steps =>
    let env := ⟨m.specifier, r, fun d => m.scope.get? ⟨d⟩⟩
    runSteps env m (st.evaluated.count m.specifier) steps {} st

/-- The scripted host. -/
def host : Host Callable State := ⟨instantiate⟩

/-! ## As JSON -/

section Reading

open Json.Fields

/-- A function as an object: its field `kind` says what it does. -/
def FunctionSpec.ofJson (j : Json) : FunctionSpec :=
  match str j "kind" with
  | "args" => .arguments
  | "fail" => .fail (str j "message")
  | "dep_call" => .callExport (str j "dep") (str j "name")
  | "dep_get" => .readExport (str j "dep") (str j "name")
  | "var_call" => .callVariable (str j "var")
  | "var_current" => .readVariable (str j "var")
  | _ => .const (get j "value")

def Action.ofJson (j : Json) : Action :=
  match str j "do" with
  | "scope" => .scope
  | "code" => .code
  | "take" => .take (str j "dep") (str j "name") (str? j "as")
  | "current" => .current (str j "var")
  | "call_var" => .callVariable (str j "var") (list j "args")
  | "call" => .callExport (str j "dep") (str j "name") (list j "args")
  | "exports" => .exports (str j "dep")
  | "export" => .exportValue (str j "name") (get j "value")
  | "export_var" => .exportVariable (str j "name") (str j "var")
  | "export_fn" => .exportFunction (str j "name") (.ofJson (get j "fn"))
  | "declared" => .declared
  | "capture" => .capture
  | "fail" => .fail (str j "message") (nat? j "times")
  | _ => .unknown

def Step.ofJson (j : Json) : Step := ⟨.ofJson j, bool j "try"⟩

/-- The scripts of modules: an object with an array for each. -/
def scriptsOf (j : Json) (key : String) : List (String × List Step) :=
  (fields j key).map fun (name, steps) =>
    match steps with
    | .array xs => (name, xs.map Step.ofJson)
    | _ => (name, [])

end Reading

end ScriptLoader.Script
