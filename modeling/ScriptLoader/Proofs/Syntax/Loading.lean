import ScriptLoader.Proofs.Places.Scanning
import ScriptLoader.Proofs.Syntax.Behind

/-!
# Reading a call with strings

The call of a function with strings, `f("a", 'b')`, is read as that, whatever way its strings are
written in.

* `scans_string`: what was read as a string is read as the same one in front of anything else.
* `statement_call`: the statement that such a call is.
* `Program.read_call`: a program of this one call.
-/

namespace ScriptLoader.Syntax

open Syntax.Parser Grammar

/-! ## Strings -/

/-- The token is a string. -/
def Token.IsString : Token → Prop
  | .string _ => True
  | _ => False

theorem scanBased_ne (isDigit : Char → Bool) (mark cs : List Char) :
    ¬ (scanBased isDigit mark cs).1.IsString := by
  unfold scanBased
  repeat' split
  all_goals exact id

theorem scanDecimal_ne (cs : List Char) : ¬ (scanDecimal cs).1.IsString := by
  have hanswer : ∀ answer : Option (Token × List Char), (∀ r ∈ answer, ¬ r.1.IsString) →
      ¬ (answer.getD (.invalid, [])).1.IsString := by
    intro answer h
    cases answer with
    | none => exact id
    | some r => exact h r rfl
  refine hanswer _ fun r hr => ?_
  simp only [Option.bind_eq_bind, Option.mem_def, Option.bind_eq_some_iff] at hr
  obtain ⟨⟨whole, rest⟩, -, hr⟩ := hr
  dsimp only at hr
  split at hr
  · split at hr
    · cases hr
    · cases hr
      exact id
  · simp only [Option.bind_eq_some_iff] at hr
    obtain ⟨_, -, _, -, hr⟩ := hr
    cases hr
    exact id
  · simp only [Option.bind_eq_some_iff] at hr
    obtain ⟨_, -, hr⟩ := hr
    cases hr
    exact id

theorem scanNumber_ne (cs : List Char) : ¬ (scanNumber cs).1.IsString := by
  unfold scanNumber
  dsimp only
  split
  on_goal 1 => split
  · exact id
  all_goals
    split
    · repeat' split
      all_goals first | exact scanBased_ne _ _ _ | exact scanDecimal_ne _ | exact id
    · exact scanDecimal_ne _

theorem scanPunct_ne (cs : List Char) : ¬ (scanPunct cs).1.IsString := by
  unfold scanPunct
  repeat' split
  all_goals exact id

theorem scanQuasi_ne (fuel : Nat) (cs : List Char) : ¬ (scanQuasi fuel cs).1.IsString := by
  unfold scanQuasi
  split <;> exact id

/-- What was read as a string is read as the same one in front of anything else. -/
theorem scans_string {fuel : Nat} {v : String} {cs rest : List Char}
    (h : Token.scan fuel cs = (.string v, rest)) :
    ∃ front, cs = front ++ rest ∧ ∀ tail, Scans (front ++ tail) (.string v) tail := by
  have hother : ∀ r : Token × List Char, ¬ r.1.IsString → r ≠ (.string v, rest) := by
    rintro _ hr rfl
    exact hr trivial
  unfold Token.scan at h
  split at h
  · cases h
  · next q cs =>
    split at h
    · split at h <;> cases h
    · next hname =>
      split at h
      · exact absurd h (hother _ (scanNumber_ne _))
      · next hnumber =>
        split at h
        · next hquote =>
          split at h
          · next points after hbody =>
            cases h
            obtain ⟨body, rfl, hread⟩ := stringBody?_spelled hbody
            have hquote : q = '"' ∨ q = '\x27' := by simpa using hquote
            refine ⟨q :: (body ++ [q]), by simp, fun tail => ?_⟩
            have htext : q :: (body ++ [q]) ++ tail = q :: (body ++ q :: tail) := by simp
            rw [htext]
            refine ⟨⟨q, _, rfl, by rcases hquote with rfl | rfl <;> decide⟩, ?_, fun k hk => ?_⟩
            · simp only [List.length_cons, List.length_append]
              omega
            · simp only [List.length_cons, List.length_append] at hk
              have hplain : isNameStart q = false ∧ Text.isAsciiDigit q = false ∧ q ≠ '\\' ∧
                  q ≠ '.' := by
                rcases hquote with rfl | rfl <;> decide
              simp [Token.scan, hplain, hquote, hread tail k (by omega)]
          · cases h
        · split at h
          · exact absurd h (hother _ (scanQuasi_ne _ _))
          · split at h
            · split at h <;> cases h
            · exact absurd h (hother _ (scanPunct_ne _))

variable {s : Setting} {c d : Cursor} {g : Grammar} {k start : Nat} {w : String} {vs : List String}
  {e : Node}

/-! ## Calls -/

/-- The tree of a string, without its place. -/
def stringTree (v : String) : Node := .mk .stringLit [] v ⟨0, 0⟩ []

/-- The tree of a call with strings. -/
def callTree (w : String) (vs : List String) : Node :=
  .mk .call [] "" ⟨0, 0⟩ (.mk .reference [] w ⟨0, 0⟩ [] :: vs.map stringTree)

/-- What is read of a string in a list. -/
def stringItem (v : String) : List Token × Node := ([.string v], stringTree v)

/-- The tokens of a call with strings. -/
def callTokens (w : String) (vs : List String) : List Token :=
  .name w false :: .punct "(" :: (commaTokens (vs.map stringItem) ++ [.punct ")"])

theorem readsItem_string (v : String) :
    ReadsItem s ")" (spreadItem (Grammar.ofDepth (k + 1))) [.string v] (stringTree v) := by
  refine ⟨⟨_, _, rfl, by simp⟩, ?_⟩
  rintro c d ⟨hc, -, rfl⟩ hd
  have hcloses : (c.next s).Closes := by
    rcases hd with hd | hd
    · exact Or.inr (Or.inr (Or.inr (Or.inl hd)))
    · exact Or.inr (Or.inr (Or.inl hd))
  have hdots : skip "..." s c = .ok (false, c) := skip_of_ne (by simp [hc])
  refine ⟨.mk .stringLit [] v ⟨c.span.start, (c.next s).lastStop⟩ [], ?_, rfl⟩
  simp [spreadItem, bind_apply, position_apply, hdots, assignment_string hc hcloses]

/-- Strings in parentheses behind a function. -/
theorem suffixes_call (hvs : vs ≠ [])
    (hreads : Reads s (.punct "(" :: (commaTokens (vs.map stringItem) ++ [.punct ")"])) c d)
    (hd : d.Closes) :
    ∃ n, suffixes (Grammar.ofDepth (k + 2)) true start e s c = .ok (n, d) ∧
      n.bare = .mk .call [] "" ⟨0, 0⟩ (e.bare :: vs.map stringTree) := by
  obtain ⟨hopen, -, hreads⟩ := hreads
  have hitems : ∀ i ∈ vs.map stringItem,
      ReadsItem (inside s) ")" (spreadItem (Grammar.ofDepth (k + 2))) i.1 i.2 := by
    intro i hi
    obtain ⟨v, -, rfl⟩ := List.mem_map.1 hi
    exact readsItem_string v
  obtain ⟨ns, hns, htrees⟩ := commaUntil_items (by decide) (by simpa using hvs) hitems
    hreads.inside
  let n : Node := .mk .call [] "" ⟨start, d.lastStop⟩ (e :: ns)
  have hstep : suffixStep (Grammar.ofDepth (k + 2)) true start (e, false) s c =
      .ok (.inl (n, false), d) := by
    simp [suffixStep, bind_apply, cursor_apply, setting_apply, hopen, advance_eq, argumentsRest,
      within_apply, hns, finish_apply, pure_apply, n]
  have hstop : suffixStep (Grammar.ofDepth (k + 2)) true start (n, false) s d =
      .ok (.inr (n, false), d) := by
    rcases hd with hd | hd | hd | hd | hd <;>
      simp [suffixStep, bind_apply, cursor_apply, setting_apply, hd, pure_apply]
  refine ⟨n, ?_, ?_⟩
  · rw [suffixes, bind_apply, loop_apply, rounds_succ, hstep]
    simp only
    rw [rounds_succ, hstop]
    rfl
  · simp only [n, Node.bare, Node.bareAll, Node.bareAll_eq_map, htrees, List.map_map]
    rfl

/-- A call with strings and nothing behind it. -/
theorem expression_call (hw : isPlainName w = true) (hvs : vs ≠ [])
    (hreads : Reads s (callTokens w vs) c d) (hd : d.token = .eof) (hmark : c.pureMark = false) :
    ∃ n, Grammar.ofDepth (k + 4) .expression s c = .ok (n, d) ∧ n.bare = callTree w vs := by
  have hcloses : d.Closes := Or.inr (Or.inr (Or.inr (Or.inr hd)))
  obtain ⟨hname, -, hreads⟩ := hreads
  let e : Node := .mk .reference [] w ⟨c.span.start, (c.next s).lastStop⟩ []
  obtain ⟨n, hn, hbare⟩ : ∃ n, suffixes (Grammar.ofDepth (k + 2)) true c.span.start e s (c.next s) =
      .ok (n, d) ∧ n.bare = .mk .call [] "" ⟨0, 0⟩ (e.bare :: vs.map stringTree) :=
    suffixes_call hvs hreads hcloses
  have hassignment := assignment_of_suffixes hw hname hreads.1 (by decide) hn
    (by simp [hmark]) hcloses
  exact ⟨n, expression_of_assignment hassignment (by simp [hd]), hbare⟩

/-- A word that begins an expression wherever a statement may begin. -/
def beginsExpression (w : String) : Bool :=
  isPlainName w && !(["let", "using", "type", "interface", "namespace", "module", "global",
    "abstract", "declare"].contains w)

/-- A call with strings is a statement. -/
theorem statement_call (hw : beginsExpression w = true) (hvs : vs ≠ [])
    (hreads : Reads s (callTokens w vs) c d) (hd : d.token = .eof) (hmark : c.pureMark = false) :
    ∃ n, Grammar.ofDepth (k + 5) .statement s c = .ok (n, d) ∧
      n.bare = .mk .expression [] "" ⟨0, 0⟩ [callTree w vs] := by
  have hplain : isPlainName w = true := by
    rw [beginsExpression, Bool.and_eq_true] at hw
    exact hw.1
  obtain ⟨n, hn, hbare⟩ := expression_call (k := k) hplain hvs hreads.inside hd hmark
  refine ⟨.mk .expression [] "" ⟨c.span.start, d.lastStop⟩ [n], ?_, ?_⟩
  · change statementRule (Grammar.ofDepth (k + 4)) s c = _
    obtain ⟨hc, -, hopen, -⟩ := hreads
    have hne : ∀ v, beginsExpression v = false → w ≠ v := by
      rintro v hv rfl
      rw [hw] at hv
      cases hv
    have hvariables : variablesAt s c = .ok ("", c) := by
      simp [variablesAt, bind_apply, cursor_apply, next_apply, setting_apply, wordAt, hc,
        pure_apply, hne "var" (by decide), hne "const" (by decide), hne "let" (by decide),
        hne "using" (by decide), hne "await" (by decide)]
    have htyped : typedDeclarationAt s c = .ok (none, c) := by
      simp [typedDeclarationAt, bind_apply, cursor_apply, setting_apply, hc, pure_apply,
        hne "enum" (by decide), hne "type" (by decide), hne "interface" (by decide),
        hne "const" (by decide), hne "namespace" (by decide), hne "module" (by decide),
        hne "global" (by decide), hne "abstract" (by decide), hne "declare" (by decide)]
    have hkeyword : keywordStatement (Grammar.ofDepth (k + 4)) w s c = .ok (none, c) := by
      unfold keywordStatement
      rw [bind_apply, position_apply]
      dsimp only
      split
      case h_17 => rfl
      all_goals exact absurd rfl (hne _ (by decide))
    have hasync : w ≠ "async" := hne _ (by decide)
    have hend : endStatement s d = .ok ((), d) := by
      simp [endStatement, bind_apply, skip_of_ne, atPunct_of_ne, atEnd, hd, cursor_apply,
        pure_apply]
    have hexpression : expressionStatement (Grammar.ofDepth (k + 4)) s c =
        .ok (.mk .expression [] "" ⟨c.span.start, d.lastStop⟩ [n], d) := by
      simp [expressionStatement, bind_apply, position_apply, next_apply, atVariable, punctAt, hopen,
        within_apply, hn, hend, finish_apply]
    simp [statementRule, bind_apply, position_apply, cursor_apply, hc, hvariables, htyped,
      hkeyword, next_apply, hasync, hexpression]
  · simp only [Node.bare, Node.bareAll, hbare]

theorem isSound_call {n : Node} {dialect : Dialect}
    (h : n.bare = .mk .expression [] "" ⟨0, 0⟩ [callTree w vs]) :
    Program.isSound dialect [n] = true := by
  have hstrings : Program.strayDefaults (vs.map stringTree) = false := by
    clear h
    induction vs with
    | nil => rfl
    | cons v vs ih =>
      rw [List.map_cons, Program.strayDefaults, ih]
      rfl
  have hstray : Program.strayDefaults [n] = false := by
    rw [← Program.strayDefaults_bareAll]
    simp [Node.bareAll, h, callTree, Program.strayDefaults, Program.strayDefault, hstrings]
  have hexports : Program.exportNames n = [] := by
    obtain ⟨kind, marks, text, span, cs⟩ := n
    obtain rfl : kind = .expression := by
      simp only [Node.bare, Node.mk.injEq] at h
      exact h.1
    rfl
  simp [Program.isSound, hstray, Program.exportedTwice, hexports, Program.firstRepeated]

/-- Behind the last character stands the end of the source. -/
theorem token_of_leaves (h : c.Leaves s []) : (c.next s).token = .eof := by
  simp [Cursor.next, cursorAt, h.1, skipTrivia, Token.scan]

/-- A program of one call with strings. -/
theorem Program.read_call (hw : beginsExpression w = true) (hvs : vs ≠ []) {text : List Char}
    (hspells : Spells text (callTokens w vs) []) (hfirst : text.head? ≠ some '#')
    (dialect : Dialect) :
    ∃ program, Program.read dialect text = .ok program ∧
      program.statements.map Node.bare = [.mk .expression [] "" ⟨0, 0⟩ [callTree w vs]] := by
  have hsplit : Program.splitHashbang text = (none, text) := by
    unfold Program.splitHashbang
    split
    · exact absurd rfl hfirst
    · rfl
  let s := Program.setting dialect text.length
  let c := cursorAt s true false 0 0 text []
  obtain ⟨l, hreads, hleaves, -⟩ : ∃ l : Cursor, Reads s (callTokens w vs) c (l.next s) ∧
      l.Leaves s [] ∧ l.comments = [] ∧ (callTokens w vs).getLast? = some l.token :=
    hspells.reads (by simp [callTokens]) (by simp [s, Program.setting]) (Nat.le_refl 0)
  have hend := token_of_leaves hleaves
  have hmark : c.pureMark = false := by
    cases hspells with
    | cons hlead hscans hrest =>
      have hc := @cursorAt_of_scans _ _ s true false 0 0 [] _ _ hscans hlead
        (by simp [s, Program.setting])
      exact congrArg Cursor.pureMark hc
  obtain ⟨n, hn, hbare⟩ := statement_call (k := 4 * text.length + 11) hw hvs hreads hend hmark
  have hstatements : statementsUntil (Grammar.ofDepth (Program.depthFor text.length)) atEnd s c =
      .ok ([n], l.next s) := by
    have hfirst : statementStep (Grammar.ofDepth (Program.depthFor text.length)) atEnd (true, [])
        s c = .ok (.inl (false, [n]), l.next s) := by
      have hn : Grammar.ofDepth (Program.depthFor text.length) .statement s c =
          .ok (n, l.next s) := hn
      simp [statementStep, bind_apply, atEnd, hreads.1, cursor_apply, hn, isStringAt, pure_apply]
    have hlast : statementStep (Grammar.ofDepth (Program.depthFor text.length)) atEnd
        (false, [n]) s (l.next s) = .ok (.inr [n], l.next s) := by
      simp [statementStep, bind_apply, atEnd, hend, pure_apply]
    change rounds (statementStep _ _) (_ + 2) (true, []) s c = _
    rw [rounds_succ, hfirst]
    dsimp only
    rw [rounds_succ, hlast]
  have hsound : Program.isSound dialect [n] = true := isSound_call hbare
  obtain ⟨program, hread, hprogram⟩ :=
    (Program.read_ok_iff hsplit).2 ⟨⟨_, hstatements⟩, hsound⟩
  exact ⟨program, hread, by rw [hprogram, List.map_singleton, hbare]⟩

end ScriptLoader.Syntax
