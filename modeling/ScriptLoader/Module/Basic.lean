import ScriptLoader.Json.Basic
import ScriptLoader.Keyed
import ScriptLoader.LoadError

/-!
# Loaded modules and their bindings

A module exports named bindings: values, functions, and names of a module that was still loading
when they were read. Such a name stays with the stub it was read through and is followed when it is
used. Functions are handles of any type `F`; what a handle does is not part of the binding.
-/

namespace ScriptLoader

/-- The identity of a slot, a cell that a module fills once. The number tells slots apart that were
made for one specifier. -/
structure Slot where
  owner : Specifier
  number : Nat
  deriving DecidableEq, Inhabited

/-- Stands for a module that was loading when `requester` imported it. -/
structure Stub where
  target : Specifier
  requester : Specifier
  /-- The cell that the stub looks into. -/
  slot : Slot
  deriving DecidableEq, Inhabited

namespace Stub

/-- The failure of using a stub whose module is not there. -/
def circular (s : Stub) (access : Access) : LoadError := .circular s.target s.requester access

end Stub

/-- An exported binding. -/
inductive Binding (F : Type) where
  | value (v : Json)
  | function (f : F)
  /-- The export `name` of a module that was still loading. -/
  | deferred (stub : Stub) (name : String)
  deriving Inhabited

/-- The exports of a module, in the order of declaration. -/
abbrev Exports (F : Type) := Keyed String (Binding F)

/-- What a module's code is. -/
inductive SourceKind where
  | module
  /-- Run for its effects; exports nothing. -/
  | script
  deriving DecidableEq, Inhabited

def SourceKind.name : SourceKind → String
  | .module => "module"
  | .script => "script"

/-- A module that the host has instantiated. -/
structure LoadedModule (F : Type) where
  specifier : Specifier
  kind : SourceKind
  /-- In the order of declaration. -/
  exports : List (String × Binding F)
  /-- The code that the host was given, with the comment that names its origin. -/
  code : String
  deriving Inhabited

namespace LoadedModule

variable {F : Type}

def get? (m : LoadedModule F) (name : String) : Option (Binding F) := Keyed.get? name m.exports

def notFunction (m : LoadedModule F) (name : String) : LoadError :=
  .evaluation m.specifier s!"'{name}' is not a function"

def notExported (m : LoadedModule F) (name : String) : LoadError :=
  .evaluation m.specifier s!"'{name}' is not exported"

end LoadedModule

/-- A dependency as the module that imports it sees it. -/
inductive ModuleRef (F : Type) where
  | loaded (m : LoadedModule F)
  | forwarded (stub : Stub)
  deriving Inhabited

namespace ModuleRef

variable {F : Type}

def specifier : ModuleRef F → Specifier
  | loaded m => m.specifier
  | forwarded s => s.target

def isForwarded : ModuleRef F → Bool
  | loaded _ => false
  | forwarded _ => true

end ModuleRef

/-- The dependencies that a module sees. -/
abbrev Scope (F : Type) := Keyed Specifier (ModuleRef F)

end ScriptLoader
