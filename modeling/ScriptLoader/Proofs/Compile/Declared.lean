import ScriptLoader.Proofs.Compile.Preface

/-!
# What the text in front declares

The text that linking puts in front of a source is a line of declarations. Each of its variables is
declared as the entry of the scope object for a module, or as a property of that.

* `Holder`: a variable in front of the code, and what it holds.
* `Declares`: what a line of declarations declares, read off its characters.
* `declares_preface`: the text in front declares the variables of its statements.
-/

namespace ScriptLoader.Compile.Linked

open Syntax

/-! ## Variables in front -/

/-- A variable in front of the code: it holds a property of the scope entry of a module, or the
entry as a whole. -/
structure Holder where
  name : String
  property : Option String
  dep : Specifier
  deriving DecidableEq

def Field.holder (dep : Specifier) : Field → Holder
  | .same name => ⟨name, some name, dep⟩
  | .renamed property name => ⟨name, some property, dep⟩

/-- The variables of a statement in front. -/
def Hoist.holders : Hoist → List Holder
  | .whole name dep => [⟨name, none, dep⟩]
  | .fields names dep => names.map (Field.holder dep)

/-! ## Texts that declare variables -/

/-- A text stands for a property in a pattern: it is its name, which then has characters of names
only, or its name in quotes. -/
def IsKeyText (text : List Char) (property : String) : Prop :=
  (text = property.toList ∧ ∃ c cs, text = c :: cs ∧ (c = '_' ∨ c = '$' ∨ Text.isAlphabetic c) ∧
    ∀ d ∈ cs, d = '_' ∨ d = '$' ∨ Text.isAlphanumeric d) ∨ IsQuoted text property

/-- A text is the entry of the scope object for a module. -/
def IsEntry (text : List Char) (dep : Specifier) : Prop :=
  ∃ quoted, IsQuoted quoted dep.text ∧ text = "__tsb_modules[".toList ++ quoted ++ [']']

/-- A text between the braces of a pattern takes properties of an entry, with commas between
them. -/
inductive Takes (dep : Specifier) : List Char → List Holder → Prop
  | same {name : String} : Takes dep name.toList [⟨name, some name, dep⟩]
  | renamed {text : List Char} {property name : String} : IsKeyText text property →
      Takes dep (text ++ ": ".toList ++ name.toList) [⟨name, some property, dep⟩]
  | comma {text others : List Char} {hs hs' : List Holder} : Takes dep text hs →
      Takes dep others hs' → Takes dep (text ++ ", ".toList ++ others) (hs ++ hs')

/-- A text is a line of declarations: each variable is declared as the entry of a module, or as a
property of it. -/
inductive Declares : List Char → List Holder → Prop
  | nothing : Declares [] []
  | whole {name : String} {entry others : List Char} {dep : Specifier} {hs : List Holder} :
      IsEntry entry dep → Declares others hs →
      Declares ("const ".toList ++ name.toList ++ " = ".toList ++ entry ++ "; ".toList ++ others)
        (⟨name, none, dep⟩ :: hs)
  | fields {names entry others : List Char} {dep : Specifier} {hs hs' : List Holder} :
      Takes dep names hs → IsEntry entry dep → Declares others hs' →
      Declares ("const \x7b ".toList ++ names ++ " \x7d = ".toList ++ entry ++ "; ".toList ++
        others) (hs ++ hs')

/-! ## What stands in front -/

theorem isKeyText_key (property : String) : IsKeyText (key property).toList property := by
  unfold key
  split
  · next hkey =>
    unfold isIdentifier at hkey
    split at hkey
    · cases hkey
    · next c cs hcs =>
      refine Or.inl ⟨rfl, c, cs, hcs, ?_⟩
      simpa [or_assoc] using hkey
  · exact Or.inr (isQuoted_jsonQuoted property)

theorem isEntry_scopeEntry (dep : Specifier) : IsEntry (scopeEntry dep).toList dep := by
  refine ⟨_, isQuoted_jsonQuoted dep.text, ?_⟩
  change (scopeObject ++ "[" ++ Text.jsonQuoted dep.text ++ "]").toList = _
  simp [scopeObject]

theorem takes_field (dep : Specifier) (f : Field) : Takes dep f.text.toList [f.holder dep] := by
  cases f with
  | same name => exact .same
  | renamed property name =>
    have h : Takes dep _ [⟨name, some property, dep⟩] := .renamed (isKeyText_key property)
    rwa [← String.toList_append, ← String.toList_append] at h

theorem takes_fields {dep : Specifier} {fields : List Field} (h : fields ≠ []) :
    Takes dep (commas (fields.map Field.text)).toList (fields.map (Field.holder dep)) := by
  induction fields with
  | nil => exact absurd rfl h
  | cons f fields ih =>
    cases fields with
    | nil => simpa [commas] using takes_field dep f
    | cons f' fields =>
      have htext : (commas ((f :: f' :: fields).map Field.text)).toList =
          f.text.toList ++ ", ".toList ++ (commas ((f' :: fields).map Field.text)).toList := by
        simp [commas]
      rw [htext]
      exact .comma (takes_field dep f) (ih (by simp))

theorem declares_hoist {a : Hoist} (ha : a.holders ≠ []) {text : List Char} {hs : List Holder}
    (h : Declares text hs) : Declares (a.text.toList ++ ' ' :: text) (a.holders ++ hs) := by
  cases a with
  | whole name dep =>
    have htext : (Hoist.whole name dep).text.toList ++ ' ' :: text = "const ".toList ++
        name.toList ++ " = ".toList ++ (scopeEntry dep).toList ++ "; ".toList ++ text := by
      change ("const " ++ name ++ " = " ++ scopeEntry dep ++ ";").toList ++ ' ' :: text = _
      simp
    rw [htext]
    exact .whole (isEntry_scopeEntry dep) h
  | fields names dep =>
    have htext : (Hoist.fields names dep).text.toList ++ ' ' :: text = "const \x7b ".toList ++
        (commas (names.map Field.text)).toList ++ " \x7d = ".toList ++ (scopeEntry dep).toList ++
        "; ".toList ++ text := by
      change ("const \x7b " ++ commas (names.map Field.text) ++
        (" \x7d = " ++ scopeEntry dep ++ ";")).toList ++ ' ' :: text = _
      simp
    rw [htext]
    exact .fields (takes_fields fun hnone => ha (by simp [Hoist.holders, hnone]))
      (isEntry_scopeEntry dep) h

/-- What stands in front declares the variables of its statements. -/
theorem declares_preface {hoists : List Hoist} (h : ∀ a ∈ hoists, a.holders ≠ []) :
    Declares (preface hoists) (hoists.flatMap Hoist.holders) := by
  induction hoists with
  | nil => exact .nothing
  | cons a hoists ih =>
    obtain ⟨ha, hothers⟩ := List.forall_mem_cons.1 h
    have htext : preface (a :: hoists) = a.text.toList ++ ' ' :: preface hoists := by
      cases hoists with
      | nil => simp [preface]
      | cons a' hoists => simp [preface]
    rw [htext]
    exact declares_hoist ha (ih hothers)

end ScriptLoader.Compile.Linked
