import ScriptLoader.Specifier.Path

/-!
# Dialects

Which language a source is written in, as the extension of its location says. A location without
a known extension holds a typed module.
-/

namespace ScriptLoader.Syntax

/-- A dialect: whether it has types, markup, module syntax, and whether it only declares. -/
structure Dialect where
  typed : Bool
  markup : Bool
  isModule : Bool
  definition : Bool
  deriving DecidableEq, Repr

namespace Dialect

/-- The typed dialect of modules. -/
def typedModule : Dialect := ⟨true, false, true, false⟩

/-- Whether a name such as `a.d.ts` or `a.d.css.ts` declares only; `stem` is the name without its
extension. -/
def declaresOnly (stem : List Char) (reach : Nat) : Bool :=
  ((Text.splitOn '.' stem).reverse.take reach).contains ['d']

/-- The dialect of a file name without its extension, and the extension. -/
def ofExtension (stem : List Char) (ext : String) : Dialect :=
  match ext with
  | "js" | "mjs" => ⟨false, false, true, false⟩
  | "jsx" => ⟨false, true, true, false⟩
  | "cjs" => ⟨false, false, false, false⟩
  | "ts" => ⟨true, false, true, declaresOnly stem 2⟩
  | "mts" => ⟨true, false, true, declaresOnly stem 1⟩
  | "cts" => ⟨true, false, false, declaresOnly stem 1⟩
  | "tsx" => ⟨true, true, true, false⟩
  | _ => typedModule

/-- The dialect of the source at a location. -/
def ofLocation (location : List Char) : Dialect :=
  match splitLastDot? (fileName location) with
  | some (stem, ext) => if stem = [] then typedModule else ofExtension stem (String.ofList ext)
  | none => typedModule

/-- Whether the source at a location is lowered before it runs; plain scripts are kept as they
are written. -/
def needsLowering (location : List Char) : Bool :=
  match extensionOf? location with
  | some ext => !(["js", "mjs", "cjs"].contains (String.ofList ext))
  | none => true

end Dialect

end ScriptLoader.Syntax
