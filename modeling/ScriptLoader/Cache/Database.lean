import ScriptLoader.Cache.Lookup
import ScriptLoader.Config.Basic
import ScriptLoader.Disk.Basic

/-!
# Compiles in a database

Compiles are kept in a table of a database, which is a file in a directory. What works on the file
is an engine of its own: it opens files, and reads and changes tables in transactions, and any of
this can fail. The store asks it for no more than `Engine` has, and hands its errors on.

* `Engine`: what a store asks of the engine of a database.
* `Database.open`, `Database.get`, `Database.put`, `Database.clear`, `Database.size`: the store.
* `Database.records`, `Database.replace`: the whole table, for stores that are kept as a value.
* `fileEngine`: an engine that keeps the whole table in the file and writes it at each commit.

The file of `fileEngine` is a mark and, for each record, the key and the value with their lengths in
front. A file that does not begin with the mark holds what its bytes say.

* `FileContent.toBytes`, `FileContent.ofBytes`: the bytes of a file and what they hold.
-/

namespace ScriptLoader.Cache

/-! ## Engines -/

/-- A disk, and what an engine keeps in memory beside it. -/
structure World (M : Type) where
  disk : Disk
  memory : M

/-- A key and its value as they are listed, or why they cannot be read. -/
abbrev Listed := Except String (String × List UInt8)

/-- Something that an engine does. It may fail, with a text that says why. -/
abbrev EngineAction (M α : Type) := ExceptT String (StateM (World M)) α

/-- The engine of databases with one table. A database that is open, and a transaction, belong to
the path of the file. -/
structure Engine where
  /-- What the engine keeps in memory. -/
  Memory : Type
  /-- Databases that are open. -/
  Handle : String → Type
  /-- Transactions that change the table. -/
  Writing : String → Type
  /-- Transactions that read the table. -/
  Reading : String → Type
  /-- Opens a file, which is created if it is not there. -/
  create (path : String) : EngineAction Memory (Handle path)
  close {path : String} : Handle path → StateM (World Memory) Unit
  beginWrite {path : String} : Handle path → EngineAction Memory (Writing path)
  /-- Opens the table, which is created if it is not there. -/
  openTable {path : String} : Writing path → EngineAction Memory Unit
  insert {path : String} : Writing path → String → List UInt8 → EngineAction Memory Unit
  remove {path : String} : Writing path → String → EngineAction Memory Unit
  /-- Lists the table of a transaction that changes it. -/
  listWritten {path : String} : Writing path → EngineAction Memory (List Listed)
  commit {path : String} : Writing path → EngineAction Memory Unit
  /-- Ends a transaction that changes nothing after all. -/
  abort {path : String} : Writing path → StateM (World Memory) Unit
  beginRead {path : String} : Handle path → EngineAction Memory (Reading path)
  openRead {path : String} : Reading path → EngineAction Memory Unit
  lookUp {path : String} : Reading path → String → EngineAction Memory (Option (List UInt8))
  list {path : String} : Reading path → EngineAction Memory (List Listed)

/-! ## The store -/

namespace Database

/-- The name of the file in its directory. -/
def fileName : String := "compile-cache.redb"

/-- The path of the file in a directory. -/
def path (directory : String) : String := FilePath.joinText directory fileName

variable {E : Engine} {file : String} {α : Type}

/-- What a store does with an engine. What was done before it failed stays done. -/
abbrev Action (E : Engine) (α : Type) := ExceptT Fault (StateM (World E.Memory)) α

/-- Asks the engine. -/
def ask (a : EngineAction E.Memory α) : Action E α := a.adapt .database

/-- Goes on if there is no error. -/
def accept (r : Except String α) : Action E α := ask (ExceptT.mk (pure r))

/-- Creates a directory and those around it. -/
def createDirectory (directory : String) : Action E Unit := do
  match (← get).disk.createDirectories directory with
  | .ok d => modify fun w => { w with disk := d }
  | .error f => throw (.directory f.text)

/-- Changes the table in one transaction. -/
def transact (h : E.Handle file) (body : E.Writing file → Action E α) : Action E α := do
  let t ← ask (E.beginWrite h)
  let a ← tryCatch (do ask (E.openTable t); body t) fun f => do E.abort t; throw f
  ask (E.commit t)
  return a

/-- Opens the store of a directory. -/
def «open» (directory : String) : Action E (E.Handle (path directory)) := do
  createDirectory directory
  let h ← ask (E.create (path directory))
  tryCatch (transact h fun _ => pure ()) fun f => do E.close h; throw f
  return h

/-- Opens the store of settings, if compiles are to be stored. -/
def ofSettings (settings : CacheSettings) :
    Action E (Option (E.Handle (path settings.directory))) := do
  if settings.enabled then return some (← Database.open settings.directory) else return none

/-- Puts a value under any key, as other programs do. -/
def putRaw (h : E.Handle file) (key : String) (value : List UInt8) : Action E Unit :=
  transact h fun t => ask (E.insert t key value)

def containsRaw (h : E.Handle file) (key : String) : Action E Bool := do
  let r ← ask (E.beginRead h)
  ask (E.openRead r)
  return (← ask (E.lookUp r key)).isSome

/-- The compile of a specifier. -/
def get (h : E.Handle file) (s : Specifier) : Action E (Option Entry) := do
  let r ← ask (E.beginRead h)
  ask (E.openRead r)
  match ← ask (E.lookUp r (storageKey s)) with
  | none => return none
  | some data =>
    match Entry.read data with
    | .ok e => return some e
    | .error f => throw (.unreadable f)

def put (h : E.Handle file) (s : Specifier) (e : Entry) : Action E Unit :=
  transact h fun t => ask (E.insert t (storageKey s) e.bytes)

/-- The keys of compiles among what is listed, unless something in the list cannot be read. -/
def ownKeys : List Listed → Except String (List String)
  | [] => .ok []
  | .error e :: _ => .error e
  | .ok (key, _) :: rest =>
    (ownKeys rest).map fun keys => if DatabaseStore.isOwn key then key :: keys else keys

/-- Removes every compile, and nothing else, and tells how many there were. -/
def clear (h : E.Handle file) : Action E Nat :=
  transact h fun t => do
    let keys ← accept (ownKeys (← ask (E.listWritten t)))
    keys.forM fun key => ask (E.remove t key)
    return keys.length

/-- How many compiles there are. -/
def size (h : E.Handle file) : Action E Nat := do
  let r ← ask (E.beginRead h)
  ask (E.openRead r)
  return (← accept (ownKeys (← ask (E.list r)))).length

/-! ## The whole table -/

/-- The records of the table. -/
def records (h : E.Handle file) : Action E DatabaseStore := do
  let r ← ask (E.beginRead h)
  ask (E.openRead r)
  return ⟨← accept ((← ask (E.list r)).mapM id)⟩

/-- Puts records in place of those in the table. -/
def replace (h : E.Handle file) (d : DatabaseStore) : Action E Unit :=
  transact h fun t => do
    let old ← accept ((← ask (E.listWritten t)).mapM id)
    (old.map (·.1)).forM fun key => ask (E.remove t key)
    d.records.forM fun record => ask (E.insert t record.1 record.2)

end Database

/-! ## An engine -/

/-- Each key of some records once, with its value. -/
def listing : Keyed String (List UInt8) → Keyed String (List UInt8)
  | [] => []
  | record :: rest => record :: Keyed.erase record.1 (listing rest)

/-- The records in a file. A file that is not there, or is empty, has none. -/
def recordsIn (d : Disk) (path : String) : Except String (Keyed String (List UInt8)) :=
  match d.find path with
  | .ok (.file (.database records)) => .ok records
  | .ok (.file (.bytes [])) | .error _ => .ok []
  | .ok _ => .error "the file holds no database"

def readRecords (path : String) :
    EngineAction (Keyed String (List UInt8)) (Keyed String (List UInt8)) := do
  match recordsIn (← get).disk path with
  | .ok records => return records
  | .error e => throw e

/-- Writes records into a file. -/
def writeRecords (path : String) (records : Keyed String (List UInt8)) :
    EngineAction (Keyed String (List UInt8)) Unit := do
  match (← get).disk.writeContent path (.database records) with
  | .ok d => modify fun w => { w with disk := d }
  | .error f => throw f.text

/-- An engine whose memory is the table of the transaction that changes it. It reads the whole file
when a transaction begins and writes it at the commit. -/
def fileEngine : Engine where
  Memory := Keyed String (List UInt8)
  Handle _ := Unit
  Writing _ := Unit
  Reading _ := Keyed String (List UInt8)
  create path := do writeRecords path (← readRecords path)
  close _ := pure ()
  beginWrite {path} _ := do
    let records ← readRecords path
    modify fun w => { w with memory := listing records }
  openTable _ := pure ()
  insert _ key value := modify fun w => { w with memory := w.memory.put key value }
  remove _ key := modify fun w => { w with memory := w.memory.erase key }
  listWritten _ := return (listing (← get).memory).map .ok
  commit {path} _ := do writeRecords path (← get).memory
  abort _ := pure ()
  beginRead {path} _ := readRecords path
  openRead _ := pure ()
  lookUp r key := return r.get? key
  list r := return (listing r).map .ok

end ScriptLoader.Cache

/-! ## Bytes of files -/

namespace ScriptLoader

namespace Cache

/-- What the bytes of a database begin with. -/
def databaseMark : List UInt8 := "tsb-database\n".toUTF8.toList

/-- Bytes behind their number. -/
def counted (data : List UInt8) : List UInt8 := littleEndian 8 data.length ++ data

/-- The bytes of records. -/
def recordBytes (records : List (String × List UInt8)) : List UInt8 :=
  records.flatMap fun (key, value) => counted key.toUTF8.toList ++ counted value

/-- Takes bytes that stand behind their number, and returns what is left. -/
def takeCounted? (data : List UInt8) : Option (List UInt8 × List UInt8) :=
  if data.length < 8 then none
  else
    let n := ofLittleEndian (data.take 8)
    let rest := data.drop 8
    if rest.length < n then none else some (rest.take n, rest.drop n)

/-- The records that bytes hold. `fuel` exceeds their number. -/
def readRecords? : Nat → List UInt8 → Option (List (String × List UInt8))
  | _, [] => some []
  | 0, _ => none
  | fuel + 1, data => do
    let (key, rest) ← takeCounted? data
    let (value, rest) ← takeCounted? rest
    let key ← String.fromUTF8? ⟨key.toArray⟩
    let records ← readRecords? fuel rest
    return (key, value) :: records

end Cache

open Cache

/-- The bytes of a file. -/
def FileContent.toBytes : FileContent → List UInt8
  | bytes data => data
  | database records => databaseMark ++ recordBytes records

/-- What the bytes of a file hold. -/
def FileContent.ofBytes (data : List UInt8) : FileContent :=
  if databaseMark.isPrefixOf data then
    match readRecords? data.length (data.drop databaseMark.length) with
    | some records => .database records
    | none => .bytes data
  else .bytes data

end ScriptLoader
