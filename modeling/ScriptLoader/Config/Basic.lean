import ScriptLoader.Compile.Basic
import ScriptLoader.Json.Basic
import ScriptLoader.Text.Classes

/-!
# Configurations

What a loader and the store of its compiles are told, the defaults of all settings, and the
conditions that a configuration has to meet.

* `Config.validate`: refuses settings that no loader can work with.
-/

namespace ScriptLoader

/-- How compiles are stored. -/
structure CacheSettings where
  enabled : Bool := false
  directory : String := ".cache/tsb"
  /-- Stored compiles are replaced without being used. -/
  refresh : Bool := false
  deriving DecidableEq, Inhabited

/-- All settings. -/
structure Config where
  /-- How many compiler units there are. -/
  poolSize? : Option Nat := none
  /-- Whether one unit is enough. -/
  constrained : Bool := false
  /-- How many modules a request may discover. -/
  limit : Nat := 10000
  compile : Compile.Options := {}
  cache : CacheSettings := {}
  deriving DecidableEq, Inhabited

namespace Config

/-- A setting that cannot be worked with, and why. -/
structure InvalidValue where
  field : String
  reason : String
  deriving DecidableEq, Inhabited

def InvalidValue.message (e : InvalidValue) : String :=
  s!"invalid value for '{e.field}': {e.reason}"

/-- Refuses settings that no loader can work with. -/
def validate (c : Config) : Except InvalidValue Unit :=
  if c.poolSize? = some 0 then .error ⟨"pool_size", "at least one compiler unit is required"⟩
  else if c.limit = 0 then .error ⟨"max_resolution_steps", "must be greater than zero"⟩
  else if c.compile.markup && (Text.trim c.compile.pragma.toList).isEmpty then
    .error ⟨"compile.jsx_pragma", "required when jsx is enabled"⟩
  else .ok ()

/-- The number of units, when it does not depend on the machine. -/
def units? (c : Config) : Option Nat := c.poolSize?.or (if c.constrained then some 1 else none)

/-- The variable that has stored compiles replaced, whatever it holds. -/
def refreshVariable : String := "TSB_FORCE_RECOMPILE"

/-- Whether stored compiles are replaced without being used. -/
def refreshes (c : Config) (given : List (String × String)) : Bool :=
  c.cache.refresh || (given.lookup refreshVariable).isSome

def optionsJson (o : Compile.Options) : Json :=
  .object [("jsx", .bool o.markup), ("jsx_pragma", .string o.pragma),
    ("jsx_pragma_frag", .string o.fragment)]

def json (c : Config) : Json :=
  .object
    [("pool_size", (c.poolSize?.map Json.ofNat).getD .null), ("constrained", .bool c.constrained),
      ("max_resolution_steps", .ofNat c.limit), ("compile", optionsJson c.compile),
      ("cache", .object [("enabled", .bool c.cache.enabled), ("dir", .string c.cache.directory),
        ("force_refresh", .bool c.cache.refresh)])]

end Config

end ScriptLoader
