import ScriptLoader.Text.Split

/-!
# Paths of files

A path is absolute or relative to the working directory, and names directories from the outside in.
A path is cleaned without looking at any disk: segments that stay where they are vanish, and a name
cancels with a climb behind it.

* `FilePath.ofText`: the clean path of a text.
* `FilePath.text`: the text of a clean path.
* `FilePath.escapes`: whether a path leaves the directory that it starts in.
-/

namespace ScriptLoader

/-- A clean path. A relative path may begin with climbs. -/
structure FilePath where
  absolute : Bool
  segments : List String
  deriving DecidableEq, Inhabited

namespace FilePath

def parentSegment : String := ".."

/-- One segment on the reversed segments so far. -/
def push (absolute : Bool) (stack : List String) (s : String) : List String :=
  if s = "" ∨ s = "." then stack
  else if s = parentSegment then
    match stack with
    | [] => if absolute then [] else [s]
    | top :: rest => if top = parentSegment then s :: stack else rest
  else s :: stack

/-- The segments of a text, empty ones too. -/
def split (text : String) : List String :=
  (Text.splitOn '/' text.toList).map String.ofList

/-- The clean path of a text. -/
def ofText (text : String) : FilePath :=
  let absolute := text.toList.head? = some '/'
  ⟨absolute, ((split text).foldl (push absolute) []).reverse⟩

/-- The text of a path. -/
def text (p : FilePath) : String :=
  let body := "/".intercalate p.segments
  if p.absolute then "/" ++ body
  else if p.segments.isEmpty then "."
  else body

/-- Whether a path leaves the directory that it starts in. -/
def escapes (p : FilePath) : Bool := p.absolute || p.segments.contains parentSegment

/-- The text of a path below the directory of another one. -/
def joinText (base below : String) : String :=
  if below.toList.head? = some '/' then below
  else if base = "" ∨ base.toList.getLast? = some '/' then base ++ below
  else base ++ "/" ++ below

end FilePath

end ScriptLoader
