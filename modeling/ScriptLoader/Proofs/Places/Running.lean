import ScriptLoader.Proofs.Places.Scanning
import ScriptLoader.Proofs.Syntax.Behind

/-!
# Parsers go forward

A cursor stands in a source: its token and what is behind it are characters of the source, at the
places that it tells. Parsers lead from such cursors to such cursors, further on or at the same
place.

* `Cursor.Stands`: a cursor in a source. Wherever scanning begins, there is one
  (`stands_cursorAt`).
* `Parser.Runs`: what holds of the results of a parser and the cursors behind them, from one
  cursor, with a rule for each way to put parsers together.
* `Parser.Moves`: the parsers that go forward, found from their parts.
-/

namespace ScriptLoader.Syntax

/-! ## Cursors -/

/-- The cursor is at a place of the source. -/
structure Cursor.Stands (source : List Char) (c : Cursor) : Prop where
  behind : c.lastStop ≤ c.span.start
  start_le : c.span.start ≤ c.span.stop
  stop_le : c.span.stop ≤ source.length
  here : c.here = source.drop c.span.start
  /-- A scanner that fails leaves nothing. -/
  rest : c.rest ≠ [] → c.rest = source.drop c.span.stop
  solid : c.token ≠ .eof → c.token ≠ .invalid → c.span.start < c.span.stop
  string : ∀ v, c.token = .string v →
    c.rest = source.drop c.span.stop ∧ ∃ fuel, Token.scan fuel c.here = (.string v, c.rest)

variable {source : List Char}

theorem eq_drop_of_suffix {rest : List Char} (h : rest <:+ source) :
    rest = source.drop (source.length - rest.length) := List.suffix_iff_eq_drop.1 h

/-- Wherever scanning begins, the cursor stands in the source. -/
theorem stands_cursorAt {s : Setting} (first holds : Bool) {lastStop offset : Nat}
    {rest : List Char} (comments : List Comment) (hsize : s.size = source.length)
    (hlast : lastStop ≤ offset) (hoffset : offset ≤ source.length)
    (hrest : rest ≠ [] → rest = source.drop offset) :
    (Parser.cursorAt s first holds lastStop offset rest comments).Stands source := by
  unfold Parser.cursorAt
  dsimp only
  split
  · next hnone =>
    -- Blanks are skipped at the end of a source, so that something is left here.
    have hne : rest ≠ [] := by
      rintro rfl
      cases hnone
    exact {
      behind := hlast
      start_le := Nat.le_refl _
      stop_le := hoffset
      here := hrest hne
      rest := fun h => absurd rfl h
      solid := fun _ h => absurd rfl h
      string := by rintro v ⟨⟩ }
  · next trivia broken here htrivia =>
    have hhere := suffix_skipTrivia htrivia
    have hafter := suffix_scan (s.size - offset + 2) here
    have hshorter := @shorter_scan here (s.size - offset + 2)
    generalize hscan : Token.scan (s.size - offset + 2) here = scanned at hafter hshorter
    obtain ⟨token, after⟩ := scanned
    dsimp only at hafter hshorter ⊢
    -- What is left of nothing is the end of the source.
    have hsource : here <:+ source ∧ offset + here.length ≤ source.length := by
      by_cases hnil : rest = []
      · rw [hnil, List.suffix_nil] at hhere
        rw [hhere]
        exact ⟨List.nil_suffix, hoffset⟩
      · rw [hrest hnil] at hhere
        have hle := hhere.length_le
        rw [List.length_drop] at hle
        exact ⟨hhere.trans (List.drop_suffix _ _), by omega⟩
    have hle := hafter.length_le
    rw [hsize]
    exact {
      behind := by dsimp only; omega
      start_le := by dsimp only; omega
      stop_le := by dsimp only; omega
      here := eq_drop_of_suffix hsource.1
      rest := fun _ => eq_drop_of_suffix (hafter.trans hsource.1)
      solid := fun hne h => by
        have := hshorter hne h
        dsimp only
        omega
      string := fun v hv => ⟨eq_drop_of_suffix (hafter.trans hsource.1), _, by rw [hscan, ← hv]⟩ }

/-- A token with characters leaves less than there was. -/
theorem Cursor.Stands.shrinks {c : Cursor} (hc : c.Stands source) (hne : c.token ≠ .eof)
    (h : c.token ≠ .invalid) : Shrinks c.here c.rest := by
  have hlt := hc.solid hne h
  have hle := hc.stop_le
  by_cases hnil : c.rest = []
  · rw [hnil, hc.here]
    exact ⟨List.nil_suffix, by rw [List.length_drop, List.length_nil]; omega⟩
  · rw [hc.rest hnil, hc.here]
    refine ⟨List.drop_suffix_drop_left source (Nat.le_of_lt hlt), ?_⟩
    rw [List.length_drop, List.length_drop]
    omega

/-- The token is one of the source. -/
def Cursor.Known (c : Cursor) : Prop := c.token ≠ .eof ∧ c.token ≠ .invalid

namespace Parser

variable {α β : Type} {c : Cursor}

/-- From a cursor in the source the parser goes forward, and its result and the cursor behind it
satisfy `Q`. -/
def Runs (source : List Char) (p : Parser α) (c : Cursor) (Q : α → Cursor → Prop) : Prop :=
  ∀ s a d, s.size = source.length → c.Stands source → p s c = .ok (a, d) →
    d.Stands source ∧ c.lastStop ≤ d.lastStop ∧ c.span.start ≤ d.span.start ∧ Q a d

/-- The parser reads nothing. -/
class Still (p : Parser α) : Prop where
  still : ∀ s c a d, p s c = .ok (a, d) → d = c

/-- A change of the setting that keeps the size of the source. -/
class KeepsSize (f : Setting → Setting) : Prop where
  keeps : ∀ s, (f s).size = s.size

namespace Runs

variable {P Q : α → Cursor → Prop} {R : β → Cursor → Prop}

theorem mono {p : Parser α} (h : Runs source p c P)
    (hPQ : ∀ a d, P a d → c.lastStop ≤ d.lastStop → c.span.start ≤ d.span.start →
      d.lastStop ≤ d.span.start → Q a d) : Runs source p c Q := by
  intro s a d hs hc hr
  obtain ⟨hd, hle, hst, ha⟩ := h s a d hs hc hr
  exact ⟨hd, hle, hst, hPQ a d ha hle hst hd.behind⟩

/-- What the cursor tells may be used. -/
theorem standing {p : Parser α} (h : c.Stands source → Runs source p c Q) : Runs source p c Q :=
  fun s a d hs hc hr => h hc s a d hs hc hr

theorem bind {p : Parser α} {f : α → Parser β} (hp : Runs source p c P)
    (hf : ∀ a d, P a d → c.lastStop ≤ d.lastStop → c.span.start ≤ d.span.start →
      d.lastStop ≤ d.span.start → Runs source (f a) d R) : Runs source (p >>= f) c R := by
  intro s b e hs hc h
  change andThen p f s c = .ok (b, e) at h
  unfold andThen at h
  split at h
  · next a d ha =>
    obtain ⟨hd, hle, hst, hresult⟩ := hp s a d hs hc ha
    obtain ⟨he, hle', hst', hb⟩ := hf a d hresult hle hst hd.behind s b e hs hd h
    exact ⟨he, Nat.le_trans hle hle', Nat.le_trans hst hst', hb⟩
  · cases h

theorem pure {a : α} (h : Q a c) : Runs source (Pure.pure a : Parser α) c Q := by
  rintro s _ d hs hc ⟨⟩
  exact ⟨hc, Nat.le_refl _, Nat.le_refl _, h⟩

/-- A value that is handed over. -/
theorem handed {a : α} {f : α → Parser β} (h : Runs source (f a) c R) :
    Runs source (Pure.pure a >>= f) c R := h

theorem refuse {reason : String} : Runs source (Parser.refuse reason : Parser α) c Q := by
  rintro s a d - - ⟨⟩

theorem ite {b : Prop} [Decidable b] {p q : Parser α} (hp : Runs source p c Q)
    (hq : Runs source q c Q) : Runs source (if b then p else q) c Q := by
  split
  · exact hp
  · exact hq

theorem attempt {p : Parser α} (h : Runs source p c Q) :
    Runs source (Parser.attempt p) c fun found d => ∀ a ∈ found, Q a d := by
  intro s a d hs hc hr
  unfold Parser.attempt at hr
  split at hr
  · next a e ha =>
    cases hr
    obtain ⟨hd, hle, hst, hresult⟩ := h s a d hs hc ha
    exact ⟨hd, hle, hst, by rintro _ ⟨⟩; exact hresult⟩
  · cases hr
    exact ⟨hc, Nat.le_refl _, Nat.le_refl _, nofun⟩

theorem within {p : Parser α} (f : Setting → Setting) [KeepsSize f] (h : Runs source p c Q) :
    Runs source (Parser.within f p) c Q :=
  fun s a d hs hc hr => h (f s) a d ((KeepsSize.keeps s).trans hs) hc hr

/-! ### Parsers that read nothing -/

theorem still {p : Parser α} [hp : Still p] {f : α → Parser β}
    (h : ∀ a, Runs source (f a) c R) : Runs source (p >>= f) c R := by
  intro s b e hs hc hr
  change andThen p f s c = .ok (b, e) at hr
  unfold andThen at hr
  split at hr
  · next a d ha =>
    obtain rfl := hp.still s c a d ha
    exact h a s b e hs hc hr
  · cases hr

theorem position {f : Nat → Parser β} (h : Runs source (f c.span.start) c R) :
    Runs source (Parser.position >>= f) c R := h

theorem cursor {f : Cursor → Parser β} (h : Runs source (f c) c R) :
    Runs source (Parser.cursor >>= f) c R := h

/-! ### Tokens -/

theorem advance : Runs source Parser.advance c fun _ d =>
    d.lastStop = c.span.stop ∧ c.span.start ≤ d.lastStop ∧
      (c.token ≠ .eof → c.token ≠ .invalid → c.span.start < d.lastStop) := by
  rintro s _ d hs hc ⟨⟩
  have hd : (c.next s).Stands source :=
    stands_cursorAt _ _ _ hs (Nat.le_refl _) hc.stop_le hc.rest
  have hlast : (c.next s).lastStop = c.span.stop := lastStop_cursorAt _ _ _ _ _ _ _
  have hstart := hc.start_le
  have hbehind := hc.behind
  have hpositions := hd.behind
  change (c.next s).Stands source ∧ c.lastStop ≤ (c.next s).lastStop ∧
    c.span.start ≤ (c.next s).span.start ∧ (c.next s).lastStop = c.span.stop ∧
      c.span.start ≤ (c.next s).lastStop ∧ (_ → _ → c.span.start < (c.next s).lastStop)
  refine ⟨hd, by omega, by omega, hlast, by omega, fun hne h => ?_⟩
  have := hc.solid hne h
  omega

theorem atPunct (p : String) : Runs source (Parser.atPunct p) c fun found d =>
    d = c ∧ (found = true → c.token = .punct p) := by
  rintro s _ d hs hc ⟨⟩
  refine ⟨hc, Nat.le_refl _, Nat.le_refl _, rfl, fun h => ?_⟩
  split at h
  · next q hq => rw [hq, eq_of_beq h]
  · cases h

theorem atWord (w : String) : Runs source (Parser.atWord w) c fun found d =>
    d = c ∧ (found = true → c.token = .name w false) := by
  rintro s _ d hs hc ⟨⟩
  refine ⟨hc, Nat.le_refl _, Nat.le_refl _, rfl, fun h => ?_⟩
  split at h
  · next v escaped hv =>
    simp only [Bool.and_eq_true, Bool.not_eq_true', beq_iff_eq] at h
    rw [hv, h.1, h.2]
  · cases h

/-- A token that is looked for is read, or nothing is. -/
theorem skip (p : String) : Runs source (Parser.skip p) c fun found d =>
    found = true ∧ c.span.start < d.lastStop ∨ found = false ∧ d = c := by
  refine (atPunct p).bind fun found d ⟨hd, hfound⟩ _ _ _ => ?_
  subst hd
  split
  · next h =>
    refine advance.bind fun _ e he _ _ _ => pure (.inl ⟨rfl, he.2.2 ?_ ?_⟩) <;>
    · rw [hfound h]
      exact Token.noConfusion
  · exact pure (.inr ⟨rfl, rfl⟩)

theorem skipWord (w : String) : Runs source (Parser.skipWord w) c fun found d =>
    found = true ∧ c.span.start < d.lastStop ∨ found = false ∧ d = c := by
  refine (atWord w).bind fun found d ⟨hd, hfound⟩ _ _ _ => ?_
  subst hd
  split
  · next h =>
    refine advance.bind fun _ e he _ _ _ => pure (.inl ⟨rfl, he.2.2 ?_ ?_⟩) <;>
    · rw [hfound h]
      exact Token.noConfusion
  · exact pure (.inr ⟨rfl, rfl⟩)

/-- A choice by a token that is looked for. -/
theorem choice (w : String) {p q : Parser β}
    (hp : ∀ d, c.span.start < d.lastStop → Runs source p d R) (hq : Runs source q c R) :
    Runs source (Parser.skip w >>= fun found => if found then p else q) c R := by
  refine (skip w).bind fun found d hd _ _ _ => ?_
  rcases hd with ⟨rfl, hlt⟩ | ⟨rfl, rfl⟩
  · exact hp d hlt
  · exact hq

theorem expect (p : String) : Runs source (Parser.expect p) c fun _ d =>
    c.span.start < d.lastStop := by
  refine (skip p).bind fun found d hd _ _ _ => ?_
  rcases hd with ⟨rfl, hd⟩ | ⟨rfl, -⟩
  · exact pure hd
  · exact refuse

theorem expectWord (w : String) : Runs source (Parser.expectWord w) c fun _ d =>
    c.span.start < d.lastStop := by
  refine (skipWord w).bind fun found d hd _ _ _ => ?_
  rcases hd with ⟨rfl, hd⟩ | ⟨rfl, -⟩
  · exact pure hd
  · exact refuse

/-- A token is read anew: it begins where it did, and ends in front of what it leaves now. -/
theorem retoken {token : Token} {rest : List Char} (hrest : Shrinks c.here rest)
    (htoken : ∀ v, token ≠ .string v) : Runs source (Parser.retoken token rest) c fun _ d =>
      d.token = token ∧ d.span.start = c.span.start ∧ d.lastStop = c.lastStop ∧
        d.span.start < d.span.stop := by
  rintro s _ _ hs hc ⟨⟩
  have hsource : c.here <:+ source := hc.here ▸ List.drop_suffix _ _
  have hshorter := hrest.2
  have hlength := congrArg List.length hc.here
  rw [List.length_drop] at hlength
  have hstops : c.span.start < s.size - rest.length := by omega
  have hplace : Cursor.Stands source
      { c with token, rest, span := ⟨c.span.start, s.size - rest.length⟩ } := {
    behind := hc.behind
    start_le := Nat.le_of_lt hstops
    stop_le := by dsimp only; omega
    here := hc.here
    rest := fun _ => by rw [hs]; exact eq_drop_of_suffix (hrest.1.trans hsource)
    solid := fun _ _ => hstops
    string := fun v hv => absurd hv (htoken v) }
  exact ⟨hplace, Nat.le_refl _, Nat.le_refl _, rfl, rfl, rfl, hstops⟩

/-- A token that is known, in front of a parser. -/
theorem behind {f : Unit → Parser β} (hknown : c.Known)
    (hf : ∀ d, c.span.start < d.lastStop → d.lastStop ≤ d.span.start → Runs source (f ()) d R) :
    Runs source (Parser.advance >>= f) c R :=
  advance.bind fun _ d hd _ _ hbehind => hf d (hd.2.2 hknown.1 hknown.2) hbehind

/-! ### Repetition -/

/-- What every round keeps holds of the last one. -/
theorem loop {step : α → Parser (α ⊕ β)} {a : α} (ha : Q a c)
    (hstep : ∀ a d, Q a d → c.lastStop ≤ d.lastStop → c.span.start ≤ d.span.start →
      d.lastStop ≤ d.span.start → Runs source (step a) d fun next e =>
        next.elim (Q · e) (R · e)) : Runs source (Parser.loop step a) c R := by
  have hrounds : ∀ fuel a d, Q a d → c.lastStop ≤ d.lastStop → c.span.start ≤ d.span.start →
      d.lastStop ≤ d.span.start → Runs source (rounds step fuel a) d R := by
    intro fuel
    induction fuel with
    | zero => exact fun _ _ _ _ _ _ => refuse
    | succ fuel ih =>
      intro a d ha hle hst hbehind
      refine (hstep a d ha hle hst hbehind).bind fun next e hnext hle' hst' hbehind' => ?_
      cases next with
      | inl a => exact ih a e hnext (Nat.le_trans hle hle') (Nat.le_trans hst hst') hbehind'
      | inr b => exact pure hnext
  exact standing fun hc s =>
    hrounds _ a c ha (Nat.le_refl _) (Nat.le_refl _) hc.behind s

end Runs

/-! ## Parsers that go forward -/

/-- The parser leads from cursors in the source to cursors in the source. -/
class Moves (source : List Char) (p : Parser α) : Prop where
  runs : ∀ c, Runs source p c fun _ _ => True

section

variable {p : Parser α} {f : α → Parser β}

instance [hp : Still p] : Moves source p :=
  ⟨fun c s a d _ hc hr => by
    obtain rfl := hp.still s c a d hr
    exact ⟨hc, Nat.le_refl _, Nat.le_refl _, trivial⟩⟩

theorem Runs.moves {Q : Cursor → α → Cursor → Prop} (h : ∀ c, Runs source p c (Q c)) :
    Moves source p :=
  ⟨fun c => (h c).mono fun _ _ _ _ _ _ => trivial⟩

/-- A parser that goes forward in front of another one. -/
theorem Runs.seq [hp : Moves source p] {R : β → Cursor → Prop}
    (h : ∀ a d, c.lastStop ≤ d.lastStop → c.span.start ≤ d.span.start →
      d.lastStop ≤ d.span.start → Runs source (f a) d R) : Runs source (p >>= f) c R :=
  (hp.runs c).bind fun a d _ => h a d

theorem Moves.bind (_ : Moves source p) (hf : ∀ a, Moves source (f a)) : Moves source (p >>= f) :=
  ⟨fun _ => Runs.seq fun a d _ _ _ => (hf a).runs d⟩

theorem Moves.seq [hp : Moves source p] (hf : ∀ a, Moves source (f a)) : Moves source (p >>= f) :=
  .bind hp hf

instance [hp : Moves source p] [hf : ∀ a, Moves source (f a)] : Moves source (p >>= f) :=
  .bind hp hf

instance {γ : Type} {p : Parser (α × γ)} {f : α × γ → Parser β} [hp : Moves source p]
    [hf : ∀ a b, Moves source (f (a, b))] : Moves source (p >>= f) := .bind hp fun a => hf a.1 a.2

instance (reason : String) : Moves source ((refuse reason : Parser α) >>= f) :=
  ⟨fun _ => Runs.refuse⟩

instance {q : Parser α} {b : Prop} [Decidable b] [hp : Moves source p] [hq : Moves source q] :
    Moves source (if b then p else q) := by
  split
  · exact hp
  · exact hq

instance [hp : Still p] [hf : ∀ a, Still (f a)] : Still (p >>= f) where
  still s c b e h := by
    change andThen p f s c = .ok (b, e) at h
    unfold andThen at h
    split at h
    · next a d ha => rw [(hf a).still s d b e h, hp.still s c a d ha]
    · cases h

instance {q : Parser α} {b : Prop} [Decidable b] [hp : Still p] [hq : Still q] :
    Still (if b then p else q) := by
  split
  · exact hp
  · exact hq

instance (a : α) : Still (Pure.pure a : Parser α) := ⟨by rintro s c _ d ⟨⟩; rfl⟩

instance (reason : String) : Still (refuse reason : Parser α) := ⟨by rintro s c _ d ⟨⟩⟩

instance : Still setting := ⟨by rintro s c _ d ⟨⟩; rfl⟩

instance : Still cursor := ⟨by rintro s c _ d ⟨⟩; rfl⟩

instance : Still position := ⟨by rintro s c _ d ⟨⟩; rfl⟩

instance (start : Nat) : Still (spanFrom start) := ⟨by rintro s c _ d ⟨⟩; rfl⟩

instance (w : String) : Still (atPunct w) := ⟨by rintro s c _ d ⟨⟩; rfl⟩

instance (w : String) : Still (atWord w) := ⟨by rintro s c _ d ⟨⟩; rfl⟩

instance : Still atEnd := ⟨by rintro s c _ d ⟨⟩; rfl⟩

instance : Still onNewLine := ⟨by rintro s c _ d ⟨⟩; rfl⟩

instance : Still currentWord := ⟨by rintro s c _ d ⟨⟩; rfl⟩

instance : Still currentPunct := ⟨by rintro s c _ d ⟨⟩; rfl⟩

instance (start : Nat) (kind : Kind) (cs : List Node) (text : String) (marks : List Mark) :
    Still (finish start kind cs text marks) := ⟨by rintro s c _ d ⟨⟩; rfl⟩

instance : Still (ahead p) where
  still s c a d h := by
    unfold ahead at h
    split at h
    · cases h
      rfl
    · cases h

instance : Moves source advance := Runs.moves fun _ => .advance

instance (w : String) : Moves source (skip w) := Runs.moves fun _ => .skip w

instance (w : String) : Moves source (skipWord w) := Runs.moves fun _ => .skipWord w

instance (w : String) : Moves source (expect w) := Runs.moves fun _ => .expect w

instance (w : String) : Moves source (expectWord w) := Runs.moves fun _ => .expectWord w

instance (kind : Kind) (text : String) (marks : List Mark) :
    Moves source (leaf kind text marks) := by
  unfold leaf
  infer_instance

instance : Moves source endStatement := by
  unfold endStatement
  infer_instance

instance (f : Setting → Setting) [KeepsSize f] [hp : Moves source p] :
    Moves source (within f p) := ⟨fun c => (hp.runs c).within f⟩

instance [hp : Moves source p] : Moves source (attempt p) :=
  Runs.moves fun c => (hp.runs c).attempt

theorem Moves.loop {step : α → Parser (α ⊕ β)} {a : α} (hstep : ∀ a, Moves source (step a)) :
    Moves source (Parser.loop step a) :=
  ⟨fun _ => Runs.loop (Q := fun _ _ => True) trivial fun a d _ _ _ _ =>
    ((hstep a).runs d).mono fun next _ _ _ _ _ => by cases next <;> trivial⟩

instance {step : α → Parser (α ⊕ β)} {a : α} [hstep : ∀ a, Moves source (step a)] :
    Moves source (Parser.loop step a) := .loop hstep

instance (close : String) [Moves source p] : Moves source (itemsUntil close p) := by
  unfold itemsUntil
  infer_instance

instance (close : String) [Moves source p] : Moves source (commaUntil close p) := by
  unfold commaUntil
  infer_instance

instance (sep : String) [Moves source p] : Moves source (separated sep p) := by
  unfold separated
  infer_instance

end

end Parser

end ScriptLoader.Syntax
