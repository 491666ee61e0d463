import ScriptLoader.Syntax.Scope

/-!
# Readers of sources

Linking takes what a source spells from a reader: a parser, with an analysis of the scopes of what
it read. It asks for nothing else, so that any reader can be put in.

* `Reader`: a parser and an analysis of scopes.
* `Reader.own`: the grammar of this library, with its scopes.
-/

namespace ScriptLoader.Syntax

/-- What a reference does with its variable. One that only names its type does neither. -/
structure Reference where
  read : Bool
  write : Bool
  deriving DecidableEq

/-- Whether a reference needs the variable at run time. -/
def Reference.isUse (r : Reference) : Bool := r.read || r.write

/-- A parser, with an analysis of scopes. -/
structure Reader where
  /-- The program that a source spells in a dialect, or why it spells none. -/
  read : Dialect → List Char → Except Fault Program
  /-- The references to the variable that a binding of a program declares, if the analysis knows
  that variable. -/
  references : Program → Node → Option (List Reference)

/-- The grammar and the scopes of this library. The scopes do not tell reading from writing. -/
def Reader.own : Reader where
  read := Program.read
  references p b :=
    some (((Scope.freeAll p.statements).filter (· = b.text)).map fun _ => ⟨true, true⟩)

theorem Reader.own_read (dialect : Dialect) (source : List Char) :
    Reader.own.read dialect source = Program.read dialect source := rfl

end ScriptLoader.Syntax
