import ScriptLoader.Graph.Basic
import ScriptLoader.Keyed
import ScriptLoader.Specifier.Basic

/-!
# Where modules are written

The path of a module's file below the output directory follows its specifier: the scheme of an
address is dropped, so that the host is the first directory, a segment that climbs is renamed
instead of followed, and the extension of a source becomes `.js`. Each module of a graph has a file
of its own: two modules of one path are refused.

* `Emit.outputSegments`: the path as a list of names.
* `Emit.outputPath`: the path as text.
* `Graph.outputPaths`: the paths in the order of the graph, or the first two modules that share one.
* `Emit.manifest`: the description of a graph whose modules were written.
-/

namespace ScriptLoader

namespace Emit

/-- Extensions of sources, which the extension of generated code replaces. -/
def sourceExtensions : List (List Char) :=
  ["ts", "tsx", "mts", "js", "jsx", "mjs", "cjs"].map String.toList

/-- The name that stands for a segment that climbs. -/
def parentName : List Char := "__parent__".toList

/-- The specifier without scheme, query and fragment. -/
def plainPath (cs : List Char) : List Char :=
  let rest := ((Text.splitFirst? [':', '/', '/'] cs).map (·.2)).getD cs
  rest.takeWhile fun c => c ≠ '?' && c ≠ '#'

/-- A name without the extension of a source. -/
def stem (name : List Char) : List Char :=
  match splitLastDot? name with
  | some (s, ext) => if s ≠ [] ∧ sourceExtensions.contains ext then s else name
  | none => name

/-- The names on the way to a module's file. -/
def outputSegments (s : Specifier) : List (List Char) :=
  let segments := ((Text.splitOn '/' (plainPath s.text.toList)).filter fun p =>
    p ≠ [] && p ≠ Segment.current).map fun p => if p = Segment.parent then parentName else p
  match segments.reverse with
  | [] => ["index.js".toList]
  | last :: before => before.reverse ++ [stem last ++ ".js".toList]

/-- The path of a module's file below the output directory. -/
def outputPath (s : Specifier) : String := String.ofList (Text.joinWith '/' (outputSegments s))

end Emit

namespace Graph

/-- Two modules that would be written to one path. -/
structure Collision where
  path : List (List Char)
  first : Specifier
  second : Specifier
  deriving DecidableEq

/-- The path of a collision as text. -/
def Collision.pathText (c : Collision) : String := String.ofList (Text.joinWith '/' c.path)

/-- The paths of modules behind those that are taken. -/
def claimPaths : Keyed (List (List Char)) Specifier → List Specifier →
    Except Collision (List (List (List Char)))
  | _, [] => .ok []
  | taken, s :: rest =>
    let path := Emit.outputSegments s
    match taken.get? path with
    | some first => .error ⟨path, first, s⟩
    | none => (claimPaths ((path, s) :: taken) rest).map (path :: ·)

/-- The paths of the modules of a graph. -/
def outputPaths (g : Graph) : Except Collision (List (List (List Char))) :=
  claimPaths [] (g.records.map (·.specifier))

end Graph

/-! ## Manifests -/

namespace Emit

/-- The name of the manifest in the output directory. -/
def manifestName : String := "manifest.json"

/-- A module and the file that it is written to, seen from the output directory. -/
structure Written where
  record : CompiledRecord
  file : String

def Written.json (w : Written) : Json :=
  .object
    [("specifier", .string w.record.specifier.text), ("file", .string w.file),
      ("is_module_source", .bool w.record.report.isModule),
      ("static_deps", Specifier.array w.record.report.static),
      ("dynamic_deps", Specifier.array w.record.report.dynamic)]

/-- The modules of a graph with their files. -/
def outputs (g : Graph) : Except Graph.Collision (List Written) :=
  g.outputPaths.map fun paths =>
    g.records.zipWith (fun record path => ⟨record, String.ofList (Text.joinWith '/' path)⟩) paths

/-- The manifest of modules: the entries, and for each module its file and what it depends on. -/
def manifest (entries : List Specifier) (modules : List Written) : Json :=
  .object [("entries", Specifier.array entries), ("modules", .array (modules.map Written.json))]

end Emit

end ScriptLoader
