import ScriptLoader.Text.Split

/-!
# Paths relative to a module

Resolution of a path against the location of the module that names it, on `/`-separated segments.
Segments `..` that climb above the base are kept, so a page served from a nested directory reaches
its sibling trees.

* `resolveSegments`: one path, segment by segment, on a stack of base segments.
* `resolvePath`: the same on texts.
* `extensionOf?`: the extension of the last segment.
-/

namespace ScriptLoader

/-- A segment of a path: the characters between two slashes. -/
abbrev Segment := List Char

namespace Segment

def current : Segment := ['.']

def parent : Segment := ['.', '.']

end Segment

/-- Whether a path stands for itself: rooted, or a web address. -/
def isAbsolute (path : List Char) : Bool :=
  (Text.dropFront? ['/'] path).isSome || (Text.dropFront? "http://".toList path).isSome ||
    (Text.dropFront? "https://".toList path).isSome

/-- Drops empty segments at the end of a directory, but never its first segment. The list is
reversed: the last segment comes first. -/
def dropEmptyTail : List Segment → List Segment
  | [] => []
  | [s] => [s]
  | s :: t :: rest => if s = [] then dropEmptyTail (t :: rest) else s :: t :: rest

/-- The directory of a location as a reversed list of segments: its last segment is a file name
unless it is empty. -/
def directoryStack (base : List Char) : List Segment :=
  let segments := (Text.splitOn '/' base).reverse
  let isDirectory := base.getLast? = some '/'
  dropEmptyTail (if isDirectory then segments else segments.drop 1)

/-- Leaves one directory, unless the stack is at a root. -/
def climb (stack : List Segment) : List Segment :=
  match stack.dropWhile (· = Segment.current) with
  | [] => [Segment.parent]
  | [s] => if s = [] then [[]] else []
  | _ :: rest => rest

/-- One segment of a path on the reversed stack of segments so far. -/
def pushSegment (stack : List Segment) (s : Segment) : List Segment :=
  if s = Segment.parent ∧ stack.head? ≠ some Segment.parent then climb stack
  else if s = Segment.current then stack
  else s :: stack

/-- All segments of a path on a reversed stack. -/
def resolveSegments (stack : List Segment) (path : List Segment) : List Segment :=
  path.foldl pushSegment stack

/-- The text of a reversed stack. -/
def stackText (stack : List Segment) : List Char :=
  if stack = [] then Segment.current else Text.joinWith '/' stack.reverse

/-- `path` as seen from the module at `base`. Empty segments in front of the path are ignored. -/
def resolvePath (path base : List Char) : List Char :=
  if isAbsolute path then path
  else
    stackText (resolveSegments (directoryStack base)
      ((Text.splitOn '/' path).dropWhile (· = [])))

/-- The last segment of a location. -/
def fileName (location : List Char) : List Char :=
  ((Text.splitOn '/' location).getLast?).getD []

/-- The text before and after the last dot. -/
def splitLastDot? (name : List Char) : Option (List Char × List Char) :=
  match (Text.splitOn '.' name).reverse with
  | ext :: stem :: rest => some (Text.joinWith '.' (stem :: rest).reverse, ext)
  | _ => none

/-- The extension of the last segment; a name that begins with its only dot has none. -/
def extensionOf? (location : List Char) : Option (List Char) :=
  match splitLastDot? (fileName location) with
  | some (stem, ext) => if stem = [] ∨ ext = [] then none else some ext
  | none => none

end ScriptLoader
