import ScriptLoader.Cache.Store
import ScriptLoader.Log.Event

/-!
# Using a store while loading

A stored compile is used only if it was compiled from a source with the same checksum. A store that
cannot be read is the same as one without the compile: loading goes on, and the log tells of it.

* `Store.lookUp`: the compile for a checksum.
* `Store.discard`: forgets every compile.
-/

namespace ScriptLoader.Cache

/-- Why a store cannot be opened or read. -/
inductive Fault where
  | unreadable (fault : ReadFault)
  /-- The directory of the database cannot be created. -/
  | directory (reason : String)
  /-- The engine of the database failed. -/
  | database (reason : String)
  deriving DecidableEq, Inhabited

def Fault.message : Fault → String
  | .unreadable f => s!"deserialization error: {f.message}"
  | .directory reason => s!"io error: {reason}"
  | .database reason => s!"cache database error: {reason}"

/-- The stored compile of a module, if it has the checksum; what the log tells of it. -/
def Store.lookUp (st : Store) (s : Specifier) (checksum : Checksum) : Option Entry × Log.Event :=
  match st.get? s with
  | .ok (some e) => if e.checksum = checksum then (some e, .cacheHit s) else (none, .cacheStale s)
  | .ok none => (none, .cacheMiss s)
  | .error f => (none, .cacheUnreadable s (Fault.unreadable f).message)

/-- Forgets every compile. -/
def Store.discard (st : Store) : Store × Log.Event := (st.clear.2, .cacheCleared st.clear.1)

end ScriptLoader.Cache
