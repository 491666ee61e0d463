import ScriptLoader.Syntax.Token
import ScriptLoader.Syntax.Dialect

/-!
# The reading position

A parser reads a source through a cursor: the current token, the characters behind it, and the
comments met so far. Going back is keeping an old cursor.

* `Parser`: a function from a setting and a cursor to a value and the cursor after it.
* `Parser.advance`, `Parser.skip`, `Parser.expect`: one token forward.
* `Parser.finish`: a node from a remembered start up to the end of the last token.
* `Parser.loop`: a bounded repetition; every round of it reads a token, so its bound, the number
  of characters left, is never reached.
-/

namespace ScriptLoader.Syntax

/-- What holds around the place that is read. -/
structure Setting where
  dialect : Dialect
  /-- Number of characters of the source. -/
  size : Nat
  /-- Whether `in` is an operator here. -/
  allowIn : Bool
  awaitOk : Bool
  yieldOk : Bool
  returnOk : Bool
  /-- Whether only declarations without values are read. -/
  ambient : Bool
  /-- Whether a conditional type may stand here. -/
  conditionalTypes : Bool
  /-- Whether an arrow function may have a result type here; otherwise a colon must follow it. -/
  arrowTypes : Bool

/-- Why a source is no program: the place and the reason. -/
structure Fault where
  place : Nat
  reason : String
  deriving DecidableEq, Repr

/-- A place in a source. -/
structure Cursor where
  token : Token
  span : Span
  /-- Whether a line ends between the token before and this one. -/
  newline : Bool
  /-- The characters from the start of the token. -/
  here : List Char
  /-- The characters after the token. -/
  rest : List Char
  /-- The end of the token before. -/
  lastStop : Nat
  /-- Comments in front of tokens, latest first. -/
  comments : List Comment
  /-- Whether the comments in front of the token mark a call without side effects. -/
  pureMark : Bool

/-- A parser of values of type `α`. -/
def Parser (α : Type) := Setting → Cursor → Except Fault (α × Cursor)

namespace Parser

variable {α β : Type}

def succeed (a : α) : Parser α := fun _ c => .ok (a, c)

def andThen (p : Parser α) (f : α → Parser β) : Parser β := fun s c =>
  match p s c with
  | .ok (a, c) => f a s c
  | .error e => .error e

instance : Monad Parser where
  pure := succeed
  bind := andThen

/-- Refuses the source at the current token. -/
def refuse (reason : String) : Parser α := fun _ c => .error ⟨c.span.start, reason⟩

def setting : Parser Setting := fun s c => .ok (s, c)

def cursor : Parser Cursor := fun _ c => .ok (c, c)

def resume (c : Cursor) : Parser Unit := fun _ _ => .ok ((), c)

/-- Runs a parser under a changed setting. -/
def within (f : Setting → Setting) (p : Parser α) : Parser α := fun s c => p (f s) c

/-- Runs a parser and goes back. -/
def ahead (p : Parser α) : Parser α := fun s c =>
  match p s c with
  | .ok (a, _) => .ok (a, c)
  | .error e => .error e

/-- Whether a parser succeeds here; nothing is read. -/
def succeeds (p : Parser α) : Parser Bool := fun s c =>
  match p s c with
  | .ok _ => .ok (true, c)
  | .error _ => .ok (false, c)

/-- Runs a parser; if it fails, goes back and answers nothing. -/
def attempt (p : Parser α) : Parser (Option α) := fun s c =>
  match p s c with
  | .ok (a, c) => .ok (some a, c)
  | .error _ => .ok (none, c)

/-! ## Tokens -/

/-- Whether a comment marks the call after it as free of side effects. -/
def marksPure (text : List Char) : Bool :=
  [['@', '_', '_', 'P', 'U', 'R', 'E', '_', '_'], ['#', '_', '_', 'P', 'U', 'R', 'E', '_', '_']].any
    fun m => (firstFront? [m] ((text.drop 2).dropWhile isSpace)).isSome

def marksNoEffects (text : List Char) : Bool :=
  ["@__NO_SIDE_EFFECTS__", "#__NO_SIDE_EFFECTS__"].any
    fun m => (firstFront? [m.toList] ((text.drop 2).dropWhile isSpace)).isSome

/-- The cursor on the first token of `rest`, which begins at `offset`. -/
def cursorAt (s : Setting) (first holds : Bool) (lastStop offset : Nat) (rest : List Char)
    (comments : List Comment) : Cursor :=
  let fuel := s.size - offset + 2
  match skipTrivia s.dialect.isModule holds fuel ⟨first, []⟩ first rest with
  | none => ⟨.invalid, ⟨offset, offset⟩, false, rest, [], lastStop, comments, false⟩
  | some (trivia, broken, here) =>
    let start := s.size - here.length
    let (token, after) := Token.scan fuel here
    let stop := s.size - after.length
    let isPure := trivia.pending.any fun c => marksPure c.text.toList
    let kept := trivia.pending.filter fun c =>
      !(marksPure c.text.toList || marksNoEffects c.text.toList)
    ⟨token, ⟨start, stop⟩, broken, here, after, lastStop,
      kept.map (fun c => { c with attached := start }) ++ comments, isPure⟩

/-- One token forward. -/
def advance : Parser Unit := fun s c =>
  let holds := c.token = .punct "=" || c.token = .punct "("
  .ok ((), cursorAt s false holds c.span.stop c.span.stop c.rest c.comments)

/-- Reads the current token anew as the given one, which leaves `rest`. -/
def retoken (token : Token) (rest : List Char) : Parser Unit := fun s c =>
  .ok ((), { c with token, rest, span := ⟨c.span.start, s.size - rest.length⟩ })

def atPunct (p : String) : Parser Bool := fun _ c =>
  .ok (match c.token with | .punct q => q == p | _ => false, c)

/-- Whether the token is a name that is written without escapes. -/
def atWord (w : String) : Parser Bool := fun _ c =>
  .ok (match c.token with | .name v escaped => !escaped && v == w | _ => false, c)

def atEnd : Parser Bool := fun _ c => .ok (match c.token with | .eof => true | _ => false, c)

/-- The name at the cursor, if it is written without escapes; else the empty text. -/
def currentWord : Parser String := fun _ c =>
  .ok (match c.token with | .name v false => v | _ => "", c)

/-- The punctuator at the cursor, else the empty text. -/
def currentPunct : Parser String := fun _ c =>
  .ok (match c.token with | .punct p => p | _ => "", c)

/-- Reads a punctuator if it is there. -/
def skip (p : String) : Parser Bool := do
  if ← atPunct p then advance; return true else return false

/-- Reads a word if it is there. -/
def skipWord (w : String) : Parser Bool := do
  if ← atWord w then advance; return true else return false

def expect (p : String) : Parser Unit := do
  if ← skip p then return () else refuse s!"expected {p}"

def expectWord (w : String) : Parser Unit := do
  if ← skipWord w then return () else refuse s!"expected {w}"

def onNewLine : Parser Bool := fun _ c => .ok (c.newline, c)

/-- The end of a statement: a semicolon, or a place where one may be left out. -/
def endStatement : Parser Unit := do
  if ← skip ";" then return ()
  let c ← cursor
  if c.newline || (← atPunct "\x7d") || (← atEnd) then return ()
  refuse "expected a semicolon"

/-! ## Nodes -/

def position : Parser Nat := fun _ c => .ok (c.span.start, c)

/-- The span from `start` to the end of the last token read. -/
def spanFrom (start : Nat) : Parser Span := fun _ c => .ok (⟨start, c.lastStop⟩, c)

def finish (start : Nat) (kind : Kind) (children : List Node) (text : String := "")
    (marks : List Mark := []) : Parser Node := fun _ c =>
  .ok (.mk kind marks text ⟨start, c.lastStop⟩ children, c)

/-- Reads the current token into a node. -/
def leaf (kind : Kind) (text : String) (marks : List Mark := []) : Parser Node := do
  let start ← position
  advance
  finish start kind [] text marks

/-! ## Repetition -/

/-- Rounds of `step` until it answers a result. -/
def rounds (step : α → Parser (α ⊕ β)) : Nat → α → Parser β
  | 0, _ => refuse "too long"
  | fuel + 1, a => do
    match ← step a with
    | .inl a => rounds step fuel a
    | .inr b => return b

/-- Rounds of `step`, as many as characters are left. -/
def loop (step : α → Parser (α ⊕ β)) (a : α) : Parser β := fun s c =>
  rounds step (s.size - c.lastStop + 2) a s c

/-- Items up to a punctuator, which is read too. -/
def itemsUntil (close : String) (item : Parser α) : Parser (List α) :=
  loop (fun (acc : List α) => do
    if ← skip close then return .inr acc.reverse
    else return .inl ((← item) :: acc)) []

/-- Items with commas between them up to a punctuator, which is read too; one comma may stand at
the end. -/
def commaUntil (close : String) (item : Parser α) : Parser (List α) :=
  loop (fun (acc : List α) => do
    if ← skip close then return .inr acc.reverse
    let a ← item
    if ← skip close then return .inr (a :: acc).reverse
    expect ","
    return .inl (a :: acc)) []

/-- Items with single separators between them, at least one. -/
def separated (sep : String) (item : Parser α) : Parser (List α) := do
  let first ← item
  loop (fun (acc : List α) => do
    if ← skip sep then return .inl ((← item) :: acc)
    else return .inr acc.reverse) [first]

end Parser

end ScriptLoader.Syntax
