import ScriptLoader.Graph.Basic

/-!
# Dependency graphs as indented text

One line for each entry and for each dependency of a module that is written out. A module is written
out once, where it is first met from the top: later lines point up. Dynamic imports are marked, and
so are modules that the graph does not hold.

* `Graph.treeLines`: the lines.
* `Graph.tree`: their text.
-/

namespace ScriptLoader.Graph

/-- How a line of the tree ends. -/
inductive Mark where
  /-- The module is written out below. -/
  | expanded (flags : List String)
  /-- The module is written out further up. -/
  | repeated
  /-- The graph has no record of the module. -/
  | skipped
  deriving DecidableEq

/-- A line of the tree. -/
structure TreeLine where
  depth : Nat
  dynamic : Bool
  specifier : Specifier
  mark : Mark
  deriving DecidableEq

/-- What a module's line tells about it. -/
def flags (r : CompiledRecord) : List String :=
  (if r.report.isModule then [] else ["script"]) ++ (if r.cached then ["cached"] else [])

/-- The lines of several modules, given the lines of one. The state holds the modules written
out. -/
def visitAll (visit : List Specifier → Specifier → List TreeLine × List Specifier) :
    List Specifier → List Specifier → List TreeLine × List Specifier
  | seen, [] => ([], seen)
  | seen, s :: rest =>
    let (here, seen) := visit seen s
    let (after, seen) := visitAll visit seen rest
    (here ++ after, seen)

/-- The lines of a module at a depth. `fuel` exceeds the number of modules that are not written
out. -/
def visit (g : Graph) : Nat → Nat → Bool → List Specifier → Specifier →
    List TreeLine × List Specifier
  | 0, _, _, seen, _ => ([], seen)
  | fuel + 1, depth, dynamic, seen, s =>
    match g.get? s with
    | none => ([⟨depth, dynamic, s, .skipped⟩], seen)
    | some r =>
      if seen.contains s then ([⟨depth, dynamic, s, .repeated⟩], seen)
      else
        let (static, seen) := visitAll (visit g fuel (depth + 1) false) (s :: seen) r.report.static
        let (lazy, seen) := visitAll (visit g fuel (depth + 1) true) seen r.report.dynamic
        (⟨depth, dynamic, s, .expanded (flags r)⟩ :: (static ++ lazy), seen)

/-- The lines of a graph. -/
def treeLines (g : Graph) : List TreeLine :=
  (visitAll (g.visit (g.size + 1) 0 false) [] g.entries).1

def Mark.text : Mark → String
  | .expanded [] => ""
  | .expanded flags => " [" ++ ", ".intercalate flags ++ "]"
  | .repeated => " (see above)"
  | .skipped => " (skipped)"

def TreeLine.text (l : TreeLine) : String :=
  String.join (List.replicate l.depth "  ") ++ (if l.dynamic then "import() " else "") ++
    l.specifier.text ++ l.mark.text ++ "\n"

/-- A graph as text. -/
def tree (g : Graph) : String := String.join (g.treeLines.map TreeLine.text)

end ScriptLoader.Graph
