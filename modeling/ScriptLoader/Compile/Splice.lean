import ScriptLoader.Syntax.Node

/-!
# Edits of a text

Edits replace spans of a text. They may be recorded in any order; disjoint edits are applied in
the order of their starts. Of edits that are not disjoint, one begins before the text in front of it
ends: that text cannot be taken, and nothing is made.

* `splice`: the text with all edits applied, or the gap between two edits that is not there.
* `Disjoint`: no edit begins before the one in front of it ends.
-/

namespace ScriptLoader.Compile

open Syntax (Span)

/-- A replacement of a span of the text. -/
structure Edit where
  span : Span
  text : List Char
  deriving DecidableEq, Repr

/-- The characters of a span, if the span is one of the text. -/
def sliceAt (cs : List Char) (s : Span) : Except Span (List Char) :=
  if s.start ≤ s.stop ∧ s.stop ≤ cs.length then .ok ((cs.drop s.start).take (s.stop - s.start))
  else .error s

/-- Applies edits sorted by start to the characters from `pos` on. -/
def spliceFrom (cs : List Char) : Nat → List Edit → Except Span (List Char)
  | pos, [] => sliceAt cs ⟨pos, cs.length⟩
  | pos, e :: es =>
    match sliceAt cs ⟨pos, e.span.start⟩ with
    | .error gap => .error gap
    | .ok kept => (spliceFrom cs e.span.stop es).map fun rest => kept ++ e.text ++ rest

/-- Edits by the start of their spans; those with one start keep their order. -/
def sortEdits (es : List Edit) : List Edit :=
  es.mergeSort fun a b => decide (a.span.start ≤ b.span.start)

/-- The text with all edits applied. -/
def splice (cs : List Char) (es : List Edit) : Except Span (List Char) :=
  spliceFrom cs 0 (sortEdits es)

/-- The number of line feeds in a text. -/
def lineFeeds (cs : List Char) : Nat := cs.count '\n'

/-- Every edit begins after the edits before it end. -/
def Disjoint : List Edit → Prop
  | [] => True
  | e :: es => e.span.start ≤ e.span.stop ∧ (∀ f ∈ es, e.span.stop ≤ f.span.start) ∧ Disjoint es

/-! ## Gaps that are not there -/

/-- The number of bytes of a text. -/
def byteCount (cs : List Char) : Nat := cs.foldl (fun n c => n + c.utf8Size) 0

/-- The longest beginning of a text that has no more than the given number of bytes. -/
def beginning : Nat → List Char → List Char
  | _, [] => []
  | bytes, c :: cs => if c.utf8Size ≤ bytes then c :: beginning (bytes - c.utf8Size) cs else []

/-- What is said of a gap that ends before it begins, with its ends in bytes and the beginning of
the text. -/
def gapMessage (cs : List Char) (gap : Span) : String :=
  let shown := beginning 256 cs
  let more := if shown.length < cs.length then "[...]" else ""
  let ends := s!"{byteCount (cs.take gap.start)} <= {byteCount (cs.take gap.stop)}"
  s!"begin <= end ({ends}) when slicing " ++ s!"\x60{String.ofList shown}\x60{more}"

end ScriptLoader.Compile
