import ScriptLoader.Cache.Entry
import ScriptLoader.Keyed

/-!
# Stores of compiles

A store keeps one compile for each specifier: as it is in memory, or as bytes in a database that
other programs may keep values in too. The keys of compiles in a database begin with the name space
of the library; only these are counted and cleared.

* `MemoryStore`, `DatabaseStore`: the two kinds of stores.
* `Store`: a store of either kind.
-/

namespace ScriptLoader.Cache

/-- What the keys of compiles begin with. -/
def keySpace : String := "tsb-compiled:"

/-- The key of a specifier in a database. -/
def storageKey (s : Specifier) : String := keySpace ++ s.text

/-! ## In memory -/

/-- Compiles by specifier. -/
structure MemoryStore where
  entries : Keyed Specifier Entry := []
  deriving DecidableEq, Inhabited

namespace MemoryStore

def get? (m : MemoryStore) (s : Specifier) : Option Entry := m.entries.get? s

def put (m : MemoryStore) (s : Specifier) (e : Entry) : MemoryStore := ⟨m.entries.put s e⟩

def size (m : MemoryStore) : Nat := m.entries.length

/-- Removes every compile and tells how many there were. -/
def clear (m : MemoryStore) : Nat × MemoryStore := (m.size, {})

end MemoryStore

/-! ## In a database -/

/-- Values under keys, some of which are compiles. -/
structure DatabaseStore where
  records : Keyed String (List UInt8) := []
  deriving DecidableEq, Inhabited

namespace DatabaseStore

/-- Whether a key is one of a compile. -/
def isOwn (key : String) : Bool := keySpace.toList.isPrefixOf key.toList

/-- The compile of a specifier. -/
def get? (d : DatabaseStore) (s : Specifier) : Except ReadFault (Option Entry) :=
  match d.records.get? (storageKey s) with
  | none => .ok none
  | some data => (Entry.read data).map some

def putRaw (d : DatabaseStore) (key : String) (value : List UInt8) : DatabaseStore :=
  ⟨d.records.put key value⟩

def containsRaw (d : DatabaseStore) (key : String) : Bool := d.records.has key

def put (d : DatabaseStore) (s : Specifier) (e : Entry) : DatabaseStore :=
  d.putRaw (storageKey s) e.bytes

def size (d : DatabaseStore) : Nat := (d.records.filter fun r => isOwn r.1).length

/-- Removes every compile, and nothing else, and tells how many there were. -/
def clear (d : DatabaseStore) : Nat × DatabaseStore :=
  (d.size, ⟨d.records.filter fun r => !isOwn r.1⟩)

end DatabaseStore

/-! ## Either -/

/-- Where compiles are kept. -/
inductive Store where
  | memory (store : MemoryStore)
  | database (store : DatabaseStore)
  deriving DecidableEq, Inhabited

namespace Store

def get? (st : Store) (s : Specifier) : Except ReadFault (Option Entry) :=
  match st with
  | memory m => .ok (m.get? s)
  | database d => d.get? s

def put (st : Store) (s : Specifier) (e : Entry) : Store :=
  match st with
  | memory m => memory (m.put s e)
  | database d => database (d.put s e)

def size : Store → Nat
  | memory m => m.size
  | database d => d.size

/-- Removes every compile and tells how many there were. -/
def clear : Store → Nat × Store
  | memory m => (m.clear.1, memory m.clear.2)
  | database d => (d.clear.1, database d.clear.2)

end Store

end ScriptLoader.Cache
