import ScriptLoader.Specifier.Basic

/-!
# Compiling one module

What a compiler is asked, what it tells before it has generated code, and how it fails.

* `Report.pushStatic`, `Report.pushDynamic`: a dependency is listed once, where it first occurs.
-/

namespace ScriptLoader.Compile

/-- Options of a compile. -/
structure Options where
  /-- Whether sources with markup are looked for. -/
  markup : Bool := false
  /-- The function that makes elements. -/
  pragma : String := "React.createElement"
  /-- The tag that fragments are made of. -/
  fragment : String := "React.Fragment"
  deriving DecidableEq, Hashable, Inhabited

/-- A module to compile. -/
structure Request where
  specifier : Specifier
  /-- Where the source was found: imports are relative to it and its extension is the dialect. -/
  location : String
  source : String
  options : Options
  deriving DecidableEq, Inhabited

/-- The dependencies of a module. -/
structure Report where
  /-- Whether the source has module syntax; a script exports nothing. -/
  isModule : Bool := false
  static : List Specifier := []
  dynamic : List Specifier := []
  deriving DecidableEq, Inhabited

namespace Report

/-- Appends an item unless it is there. -/
def push (s : Specifier) (list : List Specifier) : List Specifier :=
  if list.contains s then list else list ++ [s]

def pushStatic (r : Report) (s : Specifier) : Report := { r with static := push s r.static }

def pushDynamic (r : Report) (s : Specifier) : Report := { r with dynamic := push s r.dynamic }

theorem mem_push {s t : Specifier} {list : List Specifier} :
    t ∈ push s list ↔ t = s ∨ t ∈ list := by
  unfold push
  split
  · next h =>
    have hs : s ∈ list := by simpa using h
    constructor
    · exact Or.inr
    · rintro (rfl | h)
      · exact hs
      · exact h
  · simp [or_comm]

theorem nodup_push {s : Specifier} {list : List Specifier} (h : list.Nodup) :
    (push s list).Nodup := by
  unfold push
  split
  · exact h
  · next hs =>
    have hs : s ∉ list := by simpa using hs
    refine List.nodup_append.2 ⟨h, by simp, ?_⟩
    intro a ha b hb
    simp only [List.mem_singleton] at hb
    subst hb
    rintro rfl
    exact hs ha

end Report

/-- Why a compile failed. -/
structure Failure where
  message : String
  stack : Option String := none
  deriving DecidableEq, Inhabited

/-- The failure of a stage at a location. -/
def Failure.ofStage (stage location reason : String) : Failure :=
  { message := s!"failed to {stage} {location}: {reason}" }

/-- A compiler: the generated code of a request or why there is none, and the dependencies if they
became known. A compile that fails before they are known has no record; one that fails behind them
has a record without code. -/
abbrev Compiler := Request → Except Failure String × Option Report

/-- Generated code with the comment that names its origin. -/
def withOrigin (code : String) (specifier : Specifier) : String :=
  let feed := if code.toList.getLast? = some '\n' then "" else "\n"
  code ++ feed ++ "//# sourceURL=" ++ specifier.text

end ScriptLoader.Compile
