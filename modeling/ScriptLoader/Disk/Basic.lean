import ScriptLoader.Disk.Path
import ScriptLoader.Keyed

/-!
# Directories and files

The directories and files of a disk, one of which is the working directory. A path is followed from
the root of the disk or from the working directory, one segment after the other, and each segment
but the last must name a directory. The directory around the root is the root.

* `Disk.find`: what a path names.
* `Disk.readText`: the text of a file.
* `Disk.createDirectories`, `Disk.write`: changes.
-/

namespace ScriptLoader

/-- What a file holds. -/
inductive FileContent where
  | bytes (data : List UInt8)
  /-- A database: values under keys, sorted by key. -/
  | database (records : List (String × List UInt8))
  deriving DecidableEq, Inhabited

inductive DiskNode where
  | directory
  | file (content : FileContent)
  deriving DecidableEq, Inhabited

/-- Why a path cannot be used. -/
inductive DiskFault where
  | notFound
  | notDirectory
  | isDirectory
  | exists
  | nameTooLong
  | zeroByte
  | notText
  deriving DecidableEq, Inhabited

def DiskFault.text : DiskFault → String
  | .notFound => "No such file or directory (os error 2)"
  | .notDirectory => "Not a directory (os error 20)"
  | .isDirectory => "Is a directory (os error 21)"
  | .exists => "File exists (os error 17)"
  | .nameTooLong => "File name too long (os error 36)"
  | .zeroByte => "file name contained an unexpected NUL byte"
  | .notText => "stream did not contain valid UTF-8"

/-- The nodes of a disk by the names that lead to them from its root. -/
structure Disk where
  /-- The names that lead to the working directory. -/
  home : List String := ["home"]
  nodes : Keyed (List String) DiskNode := []
  deriving Inhabited

namespace Disk

/-- The node at names that lead to it. The working directory and those around it are there. -/
def node? (d : Disk) (names : List String) : Option DiskNode :=
  if names.isPrefixOf d.home then some .directory else d.nodes.get? names

/-- The disk with a node at names that lead to it. -/
def put (d : Disk) (names : List String) (n : DiskNode) : Disk :=
  { d with nodes := d.nodes.put names n }

/-- The longest name that a disk takes, in bytes. -/
def maxName : Nat := 255

/-- Follows segments from reversed names. -/
def follow (d : Disk) : List String → List String → Except DiskFault (List String)
  | here, [] => .ok here
  | here, s :: rest =>
    match d.node? here.reverse with
    | none => .error .notFound
    | some (.file _) => .error .notDirectory
    | some .directory =>
      if s = "" ∨ s = "." then follow d here rest
      else if s = FilePath.parentSegment then
        follow d here.tail rest
      else if maxName < s.utf8ByteSize then .error .nameTooLong
      else follow d (s :: here) rest

/-- The reversed names of the directory that a path begins in. -/
def start (d : Disk) (path : String) : List String :=
  if path.toList.head? = some '/' then [] else d.home.reverse

/-- The names that a text leads to; there need not be a node. -/
def locate (d : Disk) (path : String) : Except DiskFault (List String) :=
  if path.toList.contains '\x00' then .error .zeroByte
  else if path = "" then .error .notFound
  else (d.follow (d.start path) (FilePath.split path)).map List.reverse

/-- The node that a text leads to. -/
def find (d : Disk) (path : String) : Except DiskFault DiskNode := do
  match d.node? (← d.locate path) with
  | none => throw .notFound
  | some n => return n

def isDirectory (d : Disk) (path : String) : Bool :=
  match d.find path with
  | .ok .directory => true
  | _ => false

def isFile (d : Disk) (path : String) : Bool :=
  match d.find path with
  | .ok (.file _) => true
  | _ => false

def holds (d : Disk) (path : String) : Bool := (d.find path).isOk

/-- The bytes as text. -/
def decode (data : List UInt8) : Except DiskFault String :=
  match String.fromUTF8? ⟨data.toArray⟩ with
  | some s => .ok s
  | none => .error .notText

/-- The text of a file. -/
def readText (d : Disk) (path : String) : Except DiskFault String := do
  match ← d.find path with
  | .directory => throw .isDirectory
  | .file (.bytes data) => decode data
  | .file (.database _) => throw .notText

/-! ## Changes -/

/-- Creates one directory at segments that are followed from a directory. -/
def createOne (d : Disk) (start segments : List String) : Except DiskFault Disk := do
  let names := (← d.follow start segments).reverse
  match d.node? names with
  | some _ => throw .exists
  | none => return d.put names .directory

/-- Whether segments that are followed from a directory lead to a directory. -/
def leadsToDirectory (d : Disk) (start segments : List String) : Bool :=
  match d.follow start segments with
  | .ok names => d.node? names.reverse = some .directory
  | .error _ => false

/-- The reversed segments of the directory around the one that reversed segments lead to. -/
def around (segment : String) (rest : List String) : List String :=
  if segment = "." then rest.tail else rest

/-- Creates the directory at reversed segments, and those around it if it cannot do without. -/
def createFrom (d : Disk) (start : List String) : List String → Except DiskFault Disk
  | [] => .ok d
  | s :: rest =>
    let segments := (s :: rest).reverse
    let accept (d : Disk) (e : DiskFault) : Except DiskFault Disk :=
      if d.leadsToDirectory start segments then .ok d else .error e
    match d.createOne start segments with
    | .ok d => .ok d
    | .error .notFound =>
      match createFrom d start (around s rest) with
      | .error e => .error e
      | .ok d =>
        match d.createOne start segments with
        | .ok d => .ok d
        | .error e => accept d e
    | .error e => accept d e
termination_by segments => segments.length
decreasing_by
  unfold around
  split <;> simp only [List.length_cons, List.length_tail] <;> omega

/-- Creates a directory and those around it. -/
def createDirectories (d : Disk) (path : String) : Except DiskFault Disk :=
  if path.toList.contains '\x00' then .error .zeroByte
  else d.createFrom (d.start path) ((FilePath.split path).filter (· ≠ "")).reverse

/-- Puts content into a file, which is created if it is not there. -/
def writeContent (d : Disk) (path : String) (content : FileContent) : Except DiskFault Disk := do
  let names ← d.locate path
  match d.node? names with
  | some .directory => throw .isDirectory
  | _ => return d.put names (.file content)

/-- Puts a text into a file. -/
def write (d : Disk) (path : String) (text : String) : Except DiskFault Disk :=
  d.writeContent path (.bytes text.toUTF8.toList)

/-- The disk with a file and the directories on the way to it, unless something is in the way. -/
def addFile (d : Disk) (path : String) (content : FileContent) : Disk :=
  let segments := (FilePath.split path).filter (· ≠ "")
  match (d.createFrom (d.start path) segments.dropLast.reverse).bind
    (·.writeContent path content) with
  | .ok d => d
  | .error _ => d

/-- The files below the working directory by path, in the order of their paths. -/
def files (d : Disk) : List (String × FileContent) :=
  let below := d.nodes.filterMap fun (names, n) =>
    match n with
    | .file c =>
      if d.home.isPrefixOf names then some ("/".intercalate (names.drop d.home.length), c) else none
    | .directory => none
  below.mergeSort fun a b => a.1 ≤ b.1

end Disk

end ScriptLoader
