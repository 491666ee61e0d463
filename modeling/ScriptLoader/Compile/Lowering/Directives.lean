import ScriptLoader.Compile.Lowering.Markup

/-!
# Comments that choose how markup is made

A comment of a source with markup may name the makers of its markup, as in `@jsx h` and
`@jsxFrag Fragment`, and may ask for another way of making it. Only calls of named makers can be
made here, so a source that asks for anything else cannot be lowered.

* `Markup.choices`: what a comment chooses, in the order in which it says so.
* `Markup.Plan.ofComments`: what all comments of a source come to; a later choice wins.
-/

namespace ScriptLoader.Compile.Markup

open Syntax

/-- What a comment can choose. -/
inductive Choice where
  /-- The function that makes elements. -/
  | pragma
  /-- The tag that fragments are made of. -/
  | fragment
  /-- The way of making markup. -/
  | runtime
  /-- The library that the makers are taken from. -/
  | library
  deriving DecidableEq

/-- The choice that a word behind `@jsx` names. -/
def Choice.ofWord? (word : List Char) : Option Choice :=
  match String.ofList word with
  | "" => some .pragma
  | "Frag" => some .fragment
  | "Runtime" => some .runtime
  | "ImportSource" => some .library
  | _ => none

/-! ## Reading a comment -/

/-- Blanks between a word and its value; a word ends at no other character. -/
def isGap (c : Char) : Bool := c = ' ' || c = '\t'

/-- A value ends at a blank or where its line does. -/
def endsValue (c : Char) : Bool := isGap c || c = '\r' || c = '\n'

/-- What follows the first `@jsx`. -/
def afterMark? : List Char → Option (List Char)
  | '@' :: 'j' :: 's' :: 'x' :: rest => some rest
  | _ :: cs => afterMark? cs
  | [] => none

theorem length_lt_of_afterMark? {cs rest : List Char} (h : afterMark? cs = some rest) :
    rest.length < cs.length := by
  fun_induction afterMark? cs with
  | case1 => simp_all; omega
  | case2 c cs _ ih => exact Nat.lt_succ_of_lt (ih h)
  | case3 => simp at h

theorem length_dropWhile_le (p : Char → Bool) (cs : List Char) :
    (cs.dropWhile p).length ≤ cs.length :=
  (List.dropWhile_suffix p).length_le

/-- What a comment chooses, with the values. A word that means nothing is passed over; a choice
without a value ends the search. -/
def choices (cs : List Char) : List (Choice × String) :=
  match _h : afterMark? cs with
  | none => []
  | some rest =>
    match _h' : rest.dropWhile fun c => !isGap c with
    | [] => []
    | _ :: after =>
      match Choice.ofWord? (rest.takeWhile fun c => !isGap c) with
      | none => choices after
      | some choice =>
        let value := (after.dropWhile isGap).takeWhile fun c => !endsValue c
        let behind := (after.dropWhile isGap).dropWhile fun c => !endsValue c
        if value.isEmpty then [] else (choice, String.ofList value) :: choices behind
termination_by cs.length
decreasing_by
  all_goals
    have h₁ := length_lt_of_afterMark? _h
    have h₂ := length_dropWhile_le (fun c => !isGap c) rest
    rw [_h', List.length_cons] at h₂
  · omega
  · have h₃ := length_dropWhile_le isGap after
    have h₄ := length_dropWhile_le (fun c => !endsValue c) (after.dropWhile isGap)
    omega

/-! ## Plans -/

/-- The first part of a dotted name. -/
def root (name : String) : String := String.ofList (name.toList.takeWhile (· ≠ '.'))

/-- How the markup of a source is made. -/
structure Plan where
  makers : Makers
  /-- Names whose imports are kept beside elements, and beside fragments, whether or not the makers
  begin with them. -/
  elementImport : String := "React"
  fragmentImport : String := "React"
  /-- Whether the makers are to be found without being named. -/
  automatic : Bool := false
  /-- Whether a library is named, from which only makers that are not named can be taken. -/
  library : Bool := false

/-- A plan after one more choice. -/
def Plan.choose (plan : Plan) : Choice × String → Plan
  | (.pragma, name) =>
    { plan with makers := { plan.makers with pragma := name }, elementImport := root name }
  | (.fragment, name) =>
    { plan with makers := { plan.makers with fragment := name }, fragmentImport := root name }
  | (.runtime, "classic") => { plan with automatic := false }
  | (.runtime, "automatic") => { plan with automatic := true }
  | (.runtime, _) => plan
  | (.library, _) => { plan with library := true }

/-- The plan of a source with these comments. -/
def Plan.ofComments (makers : Makers) (comments : List Comment) : Plan :=
  (comments.flatMap fun c => choices c.content).foldl Plan.choose { makers }

/-- Whether markup can be made by a plan: both makers have names, and it asks for calls of them. -/
def Plan.isSound (plan : Plan) : Bool :=
  plan.makers.pragma ≠ "" && plan.makers.fragment ≠ "" && !plan.automatic && !plan.library

/-- Whether the import of a name is kept for the markup of a source, which has elements or
fragments. A fragment too is made by the function that makes elements. -/
def Plan.keeps (plan : Plan) (elements fragments : Bool) (name : String) : Bool :=
  elements && name = plan.elementImport || fragments && name = plan.fragmentImport ||
    (elements || fragments) && name = root plan.makers.pragma ||
    fragments && name = root plan.makers.fragment

end ScriptLoader.Compile.Markup
