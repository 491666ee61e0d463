import ScriptLoader.Proofs.Places.Types

/-!
# Patterns, functions and classes in a source

What is declared, and what is called: each rule lays out the trees that it reads, and where a node
begins at a place that the rule is given, it ends with the last token.
-/

namespace ScriptLoader.Syntax.Grammar

open Syntax.Parser Compile.Linked

set_option synthInstance.maxSize 1000000

variable {source : List Char} (g : Grammar) [hg : Placed source g]

/-! ## Patterns -/

theorem lays_defaulted (start : Nat) (pattern : Node) :
    Lays source ([] ++ nodes pattern) (defaulted g start pattern) := by
  unfold defaulted
  infer_instance

instance (start : Nat) (pattern : Node) : Hands source (defaulted g start pattern) [pattern] :=
  ⟨lays_defaulted g start pattern⟩

instance (start : Nat) : Lays source [] (restPattern g start) := by
  unfold restPattern
  infer_instance

instance : Lays source [] (arrayPatternItem g) := by
  unfold arrayPatternItem
  infer_instance

instance : Lays source [] (objectPatternItem g) := by
  unfold objectPatternItem
  dsimp only
  infer_instance

instance (item : Parser Node) [Lays source [] item] : Lays source [] (arrayItems item) := by
  unfold arrayItems
  dsimp only
  infer_instance

instance : Lays source [] (bindingRule g) := by
  unfold bindingRule
  dsimp only
  infer_instance

instance (item : Parser Node) [Moves source item] : Strict source (arrayItems item) := by
  refine .loop fun acc c => .choice "]" (fun _ hlt => .pure fun _ _ => hlt) ?_
  refine .seq fun a d _ hst _ => ?_
  split
  · exact .seq fun _ _ _ _ _ => .pure fun _ => nofun
  · refine .choice "]" (fun e hlt => .pure fun _ _ => Nat.lt_of_le_of_lt hst hlt) ?_
    refine .seq fun _ _ _ _ _ => ?_
    dsimp only
    split
    · exact .refuse
    · exact .pure fun _ => nofun

instance : Strict source (bindingRule g) := by
  unfold bindingRule
  dsimp only
  infer_instance

/-! ## Functions -/

instance : Moves source parameterModifiers := by
  unfold parameterModifiers
  infer_instance

instance : Lays source [] (decorators g) := by
  unfold decorators
  infer_instance

instance : Lays source [] (parameter g) := by
  unfold parameter
  dsimp only
  infer_instance

instance : Lays source [] (parameters g) := by
  unfold parameters
  infer_instance

instance : Lays source [] (block g) := by
  unfold block
  infer_instance

instance : Spans source (block g) := by
  unfold block
  exact .own

instance (close : Parser Bool) [Moves source close] : Lays source [] (statementsUntil g close) := by
  unfold statementsUntil
  refine .loop inferInstance (leaves_nil []) fun ⟨directives, acc⟩ => ?_
  dsimp only
  infer_instance

instance (async generator : Bool) : Lays source [] (functionBody g async generator) := by
  unfold functionBody
  infer_instance

instance (async generator : Bool) : Lays source [] (signature g async generator) := by
  unfold signature
  dsimp only
  infer_instance

instance (async generator : Bool) : Lays source [] (bodyOrEnd g async generator) := by
  unfold bodyOrEnd
  infer_instance

instance (start : Nat) (async declares : Bool) (kind : Kind) [Holds kind.Plain] :
    Lays source [] (functionRest g start async declares kind) := by
  unfold functionRest
  dsimp only
  infer_instance

instance (start : Nat) (async declares : Bool) (kind : Kind) [Holds kind.Plain] :
    Ends start (functionRest g start async declares kind) := by
  unfold functionRest
  dsimp only
  infer_instance

instance (start : Nat) (async declares : Bool) (kind : Kind) [Holds kind.Plain] :
    Strict source (functionRest g start async declares kind) := by
  unfold functionRest
  dsimp only
  infer_instance

instance (start : Nat) (async generator : Bool) :
    Lays source [] (methodRest g start async generator) := by
  unfold methodRest
  infer_instance

/-! ## Classes -/

instance : Moves source modifierMarks := by
  unfold modifierMarks
  dsimp only
  refine .loop fun acc => .seq fun c => .seq fun n => ?_
  split
  · infer_instance
  · split
    · infer_instance
    · refine .seq fun s => ?_
      split <;> infer_instance

instance : Moves source methodMarks := by
  unfold methodMarks
  infer_instance

instance (marks : List Mark) (function : Node) :
    Moves source (checkAccessor marks function) := by
  unfold checkAccessor
  dsimp only
  infer_instance

instance : Still atParameters := ⟨by rintro s c _ d ⟨⟩; rfl⟩

instance : Lays source [] (classMember g) := by
  unfold classMember
  dsimp only
  infer_instance

instance (found : Node × Node) : Lays source ([] ++ nodes found) (heritageStep g found) := by
  obtain ⟨superclass, types⟩ := found
  change Lays source ([] ++ nodes superclass ++ nodes types) _
  unfold heritageStep
  dsimp only
  infer_instance

instance : Lays source [] (heritage g) := by
  unfold heritage
  infer_instance

instance (start : Nat) (kind : Kind) [Holds kind.Plain] (decorated : List Node)
    (marks : List Mark) : Hands source (classRest g start kind decorated marks) decorated := by
  have hlays : Lays source ([] ++ nodes decorated) (classRest g start kind decorated marks) := by
    unfold classRest
    dsimp only
    infer_instance
  exact ⟨hlays⟩

instance (start : Nat) (kind : Kind) [Holds kind.Plain] (decorated : List Node)
    (marks : List Mark) : Ends start (classRest g start kind decorated marks) := by
  unfold classRest
  dsimp only
  infer_instance

instance (start : Nat) (kind : Kind) (decorated : List Node) (marks : List Mark) :
    Strict source (classRest g start kind decorated marks) := by
  unfold classRest
  dsimp only
  infer_instance

end ScriptLoader.Syntax.Grammar
