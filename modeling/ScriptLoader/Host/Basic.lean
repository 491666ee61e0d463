import ScriptLoader.Module.Registry

/-!
# Hosts

A host turns code into a module: it is given the code of one module and the dependencies that the
module sees, and answers the module's exports or why there are none. It keeps a state of its own.
-/

namespace ScriptLoader

/-- A handle through which code imports at run time. It reaches the loader of its number; without a
number it reaches none. -/
structure Importer where
  loader? : Option Nat := none
  deriving DecidableEq, Inhabited

/-- What a host is given. -/
structure HostModule (F : Type) where
  specifier : Specifier
  /-- The compiled code with the comment that names its origin. -/
  code : String
  kind : SourceKind
  scope : Scope F
  importer : Importer

/-- The module that exports make of what a host was given. A script exports nothing. -/
def HostModule.loaded {F : Type} (m : HostModule F) (exports : Exports F) : LoadedModule F :=
  { specifier := m.specifier
    kind := m.kind
    exports := match m.kind with
      | .module => exports
      | .script => []
    code := m.code }

/-- A host with functions of type `F` and a state of type `σ`. -/
structure Host (F σ : Type) where
  instantiate : Registry F → HostModule F → σ → Except LoadError (Exports F) × σ

end ScriptLoader
