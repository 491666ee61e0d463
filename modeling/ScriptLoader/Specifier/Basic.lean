import ScriptLoader.Specifier.Path
import ScriptLoader.Text.Classes

/-!
# Module specifiers

A specifier is the name of a module at every stage of loading: two modules are the same exactly
when their specifiers are equal texts. An entry is read against the page root, an import against
the location of the module that contains it.

* `Specifier.parse`, `Specifier.resolve`: the specifier of an entry and of an import.
* `Specifier.explicitExtension?`: the extension that fixes the location of the source.
-/

namespace ScriptLoader

/-- The name of a module. -/
structure Specifier where
  text : String
  deriving DecidableEq, Hashable, Inhabited

/-- Why a text is no specifier. -/
inductive SpecifierFault where
  /-- An entry of blanks only. -/
  | empty
  /-- An import of blanks only, inside the module at a location. -/
  | emptyImport (base : String)
  deriving DecidableEq

def SpecifierFault.message : SpecifierFault → String
  | .empty => "specifier is empty"
  | .emptyImport base => s!"empty import inside '{base}'"

namespace Specifier

/-- The location that stands for the page root. -/
def pageRoot : String := "./"

/-- A path against a base location, both as strings. -/
def resolveText (path base : String) : String :=
  String.ofList (resolvePath path.toList base.toList)

/-- The specifier of an entry. -/
def parse (raw : String) : Except SpecifierFault Specifier :=
  let trimmed := Text.trim raw.toList
  if trimmed = [] then .error .empty
  else .ok ⟨String.ofList (resolvePath trimmed pageRoot.toList)⟩

/-- The specifier of an import inside the module at `base`. -/
def resolve (raw base : String) : Except SpecifierFault Specifier :=
  let trimmed := Text.trim raw.toList
  if trimmed = [] then .error (.emptyImport base)
  else .ok ⟨String.ofList (resolvePath trimmed base.toList)⟩

/-- The extensions that are fetched without probing. -/
def explicitExtensions : List String := ["ts", "js", "tsx", "jsx"]

/-- The extension of the specifier if it is fetched without probing. -/
def explicitExtension? (s : Specifier) : Option String :=
  match extensionOf? s.text.toList with
  | some ext =>
    let ext := String.ofList ext
    if explicitExtensions.contains ext then some ext else none
  | none => none

/-- The location with an extension appended. -/
def withExtension (s : Specifier) (ext : String) : String := s.text ++ "." ++ ext

end Specifier

end ScriptLoader
