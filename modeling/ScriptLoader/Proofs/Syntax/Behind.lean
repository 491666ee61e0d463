import ScriptLoader.Proofs.Syntax.Constants
import ScriptLoader.Proofs.Syntax.Yields

/-!
# Reading behind statements

The statements of a program are read one after the other, so that statements in front do not matter
for what is read behind them, but for three things: no directive stands behind a statement, the
first line of a script is no statement, and places are other ones.

* `rounds_statements`: statements whose tokens are known are read, and then what is behind them.
* `Program.readBehind`: what is read behind statements. The mark of a first line that names an
  interpreter is refused there (`readBehind_hashbang`), and no statement is a directive
  (`notDirective_of_readBehind`).
* `Program.read_ok_iff`, `Program.isSound`: the checks of a whole program.
-/

namespace ScriptLoader.Syntax

open Syntax.Parser Grammar

variable {s : Setting} {c d : Cursor} {g : Grammar} {k : Nat}
  {items : List (List Token × Node)}

/-! ## Statements one behind the other -/

/-- A round of `statementsUntil`. -/
def Grammar.statementStep (g : Grammar) (close : Parser Bool) :
    Bool × List Node → Parser (Bool × List Node ⊕ List Node) :=
  fun (directives, acc) => do
    if ← close then return .inr acc.reverse
    let c ← cursor
    let n ← g .statement
    if directives && isStringAt c && isDirective n then
      let length := (n.child 0).span.stop - c.span.start
      let raw := ((c.here.take length).drop 1).dropLast
      return .inl (true, .mk .directive [] (String.ofList raw) n.span [] :: acc)
    else return .inl (false, n :: acc)

/-- Statements that are read already do not matter for those behind them. -/
theorem rounds_statementStep (shut : Parser Bool) (before : List Node) (fuel : Nat)
    (directives : Bool) (acc : List Node) (c : Cursor) :
    rounds (statementStep g shut) fuel (directives, acc ++ before) s c =
      (rounds (statementStep g shut) fuel (directives, acc) s c).map
        fun (ns, d) => (before.reverse ++ ns, d) := by
  induction fuel generalizing directives acc c with
  | zero => rfl
  | succ fuel ih =>
    rw [rounds_succ, rounds_succ]
    simp only [statementStep, bind_apply]
    cases shut s c with
    | error e => rfl
    | ok r =>
      obtain ⟨ended, d⟩ := r
      cases ended with
      | true => simp [pure_apply, Except.map]
      | false =>
        simp only [Bool.false_eq_true, if_false, bind_apply, cursor_apply]
        cases g .statement s d with
        | error e => rfl
        | ok r =>
          obtain ⟨n, e⟩ := r
          by_cases hdirective : (directives && isStringAt d && isDirective n) = true
          · simp only [if_pos hdirective, pure_apply]
            exact ih true (_ :: acc) e
          · simp only [if_neg hdirective, pure_apply]
            exact ih false (n :: acc) e

/-- Tokens are read as one statement that begins with a word. -/
structure ReadsStatement (s : Setting) (g : Grammar) (ts : List Token) (tree : Node) : Prop where
  opens : ∃ w us, ts = .name w false :: us
  reads : ∀ c d, Reads s ts c d → ∃ n, g .statement s c = .ok (n, d) ∧ n.bare = tree

theorem length_le_flatMap (hread : ∀ i ∈ items, ReadsStatement s g i.1 i.2) :
    items.length ≤ (items.flatMap (·.1)).length := by
  induction items with
  | nil => simp
  | cons i items ih =>
    obtain ⟨hi, hothers⟩ := List.forall_mem_cons.1 hread
    obtain ⟨w, us, hts⟩ := hi.opens
    have hrest := ih hothers
    simp only [List.flatMap_cons, List.length_append, List.length_cons, hts] at hrest ⊢
    omega

/-- Statements are read one after the other, and then what is behind them. -/
theorem rounds_statements (hitems : items ≠ [])
    (hread : ∀ i ∈ items, ReadsStatement s g i.1 i.2)
    (hreads : Reads s (items.flatMap (·.1)) c d) (fuel : Nat) (directives : Bool)
    (acc : List Node) :
    ∃ ns : List Node, ns.map Node.bare = items.map (·.2) ∧
      rounds (statementStep g atEnd) (items.length + fuel) (directives, acc) s c =
        rounds (statementStep g atEnd) fuel (false, ns.reverse ++ acc) s d := by
  induction items generalizing c directives acc with
  | nil => exact absurd rfl hitems
  | cons i items ih =>
    obtain ⟨hi, hothers⟩ := List.forall_mem_cons.1 hread
    obtain ⟨w, us, hts⟩ := hi.opens
    rw [List.flatMap_cons] at hreads
    obtain ⟨e, hone, hrest⟩ := hreads.split
    obtain ⟨n, hn, hbare⟩ := hi.reads c e hone
    have hc : c.token = .name w false := by
      rw [hts] at hone
      exact hone.1
    have hstep : statementStep g atEnd (directives, acc) s c = .ok (.inl (false, n :: acc), e) := by
      simp [statementStep, bind_apply, atEnd, hc, cursor_apply, hn, isStringAt, pure_apply]
    have hfuel : (i :: items).length + fuel = items.length + fuel + 1 := by
      rw [List.length_cons]
      omega
    rw [hfuel, rounds_succ, hstep]
    cases items with
    | nil =>
      cases hrest
      exact ⟨[n], by simp [hbare], by simp⟩
    | cons j items =>
      obtain ⟨ns, htrees, hrounds⟩ := ih (by simp) hothers hrest false (n :: acc)
      exact ⟨n :: ns, by simp [hbare, htrees], by simpa using hrounds⟩

/-! ## Behind statements -/

theorem lastStop_cursorAt (s : Setting) (first holds : Bool) (lastStop offset : Nat)
    (text : List Char) (comments : List Comment) :
    (cursorAt s first holds lastStop offset text comments).lastStop = lastStop := by
  unfold cursorAt
  dsimp only
  split <;> rfl

/-- What is read behind `read` statements that end in front of a text. -/
def Program.readBehind (dialect : Dialect) (read : Nat) (front text : List Char) :
    Except Fault (List Node × Cursor) :=
  let size := front.length + text.length
  let s := Program.setting dialect size
  Parser.rounds (Grammar.statementStep (Grammar.ofDepth (Program.depthFor size)) Parser.atEnd)
    (size + 2 - read) (false, []) s
    (Parser.cursorAt s false false front.length front.length text [])

/-! ## What is refused -/

theorem statement_refused (s : Setting) (hc : c.token = .punct "#") :
    Grammar.ofDepth (k + 3) .statement s c = .error ⟨c.span.start, "expected an expression"⟩ := by
  have hprimary : primary (Grammar.ofDepth k) (inside s) c =
      .error ⟨c.span.start, "expected an expression"⟩ := by
    simp [primary, bind_apply, position_apply, cursor_apply, hc, refuse]
  have hunary : unaryRule (Grammar.ofDepth k) (inside s) c =
      .error ⟨c.span.start, "expected an expression"⟩ := by
    simp [unaryRule, bind_apply, position_apply, cursor_apply, setting_apply, hc, leftHandRule,
      hprimary]
  have hassignment : Grammar.ofDepth (k + 1) .assignment (inside s) c =
      .error ⟨c.span.start, "expected an expression"⟩ := by
    change assignmentRule (Grammar.ofDepth k) (inside s) c = _
    simp [assignmentRule, bind_apply, position_apply, cursor_apply, next_apply, wordAt, hc,
      setting_apply, atVariable, atAsyncBare, arrowLikely, ahead, atWord, currentPunct, pure_apply,
      binaryRule, hunary]
  have hexpression : Grammar.ofDepth (k + 2) .expression (inside s) c =
      .error ⟨c.span.start, "expected an expression"⟩ := by
    change expressionRule (Grammar.ofDepth (k + 1)) (inside s) c = _
    simp [expressionRule, bind_apply, position_apply, hassignment]
  change statementRule (Grammar.ofDepth (k + 2)) s c = _
  simp [statementRule, bind_apply, position_apply, cursor_apply, hc, expressionStatement,
    next_apply, atVariable, within_apply, hexpression]

/-- The mark of a first line that names an interpreter is refused behind other statements. -/
theorem readBehind_hashbang {dialect : Dialect} {read : Nat} {front rest : List Char} :
    ∃ f, Program.readBehind dialect read front (' ' :: '#' :: '!' :: rest) = .error f := by
  have hscans := scans_hashbang rest
  unfold Program.readBehind
  dsimp only
  generalize hsize : front.length + (' ' :: '#' :: '!' :: rest).length = size
  let s := Program.setting dialect size
  have htoken : (cursorAt s false false front.length front.length
      (' ' :: '#' :: '!' :: rest) []).token = .punct "#" :=
    congrArg Cursor.token (cursorAt_of_scans hscans (Or.inr rfl) hsize)
  have hstep : ∀ c, c.token = .punct "#" →
      statementStep (Grammar.ofDepth (Program.depthFor size)) atEnd (false, []) s c =
        .error ⟨c.span.start, "expected an expression"⟩ := by
    intro c hc
    have hrefused : Grammar.ofDepth (Program.depthFor size) .statement s c = _ :=
      statement_refused (k := 4 * size + 13) s hc
    simp [statementStep, bind_apply, atEnd, hc, cursor_apply, hrefused]
  change ∃ f, rounds _ (size + 2 - read) (false, []) s _ = .error f
  cases size + 2 - read with
  | zero => exact ⟨_, rfl⟩
  | succ fuel =>
    rw [rounds_succ, hstep _ htoken]
    exact ⟨_, rfl⟩

theorem notDirective_importDeclaration :
    importDeclaration.Yields fun n => n.kind ≠ .directive := by
  unfold importDeclaration importEqualsRest
  repeat' first
    | exact .finish fun _ => by simp [Node.kind]
    | refine .seq fun _ => ?_
    | split
    | dsimp only

/-- No statement is a directive before its place is known. -/
theorem clausal_notDirective : Clausal fun n => n.kind ≠ .directive where
  of_kind h := h.2.2.2
  congr h := h
  importDeclaration := notDirective_importDeclaration
  exportList start typeOnly := by
    unfold exportList
    repeat' first
      | exact .finish fun _ => by simp [Node.kind]
      | exact .refuse
      | refine .seq fun _ => ?_
      | split
  exportStar start typeOnly := by
    unfold exportStar
    repeat' first
      | exact .finish fun _ => by simp [Node.kind]
      | refine .seq fun _ => ?_
      | split

/-- No directive is read behind other statements. -/
theorem notDirective_of_readBehind {dialect : Dialect} {read : Nat} {front text : List Char}
    {ns : List Node} {last : Cursor}
    (h : Program.readBehind dialect read front text = .ok (ns, last)) :
    ∀ n ∈ ns, n.kind ≠ .directive := by
  refine Yields.rounds (P := fun x : Bool × List Node =>
    x.1 = false ∧ ∀ n ∈ x.2, n.kind ≠ .directive)
    (Q := fun ns => ∀ n ∈ ns, n.kind ≠ .directive) ?_ _ ⟨rfl, by simp⟩ _ _ _ _ h
  rintro ⟨directives, acc⟩ ⟨rfl, hacc⟩
  refine .seq fun ended => ?_
  split
  · exact .pure fun n hn => hacc n (List.mem_reverse.1 hn)
  · refine .seq fun c => (clausal_notDirective.yields_ofDepth _).bind fun n hn => ?_
    exact .pure ⟨rfl, List.forall_mem_cons.2 ⟨hn, hacc⟩⟩

/-! ## Checks on the whole -/

/-- Whether statements pass the checks that need the whole tree. -/
def Program.isSound (dialect : Dialect) (statements : List Node) : Bool :=
  !(Program.strayDefaults statements) &&
    (dialect.typed || (Program.exportedTwice statements).isNone)

theorem Program.read_ok_iff {dialect : Dialect} {source : List Char}
    (hsource : Program.splitHashbang source = (none, source)) {statements : List Node} :
    (∃ q, Program.read dialect source = .ok q ∧ q.statements = statements) ↔
      (∃ last, Grammar.statementsUntil (Grammar.ofDepth (Program.depthFor source.length))
          Parser.atEnd (Program.setting dialect source.length)
          (Parser.cursorAt (Program.setting dialect source.length) true false 0 0 source []) =
            .ok (statements, last)) ∧
        Program.isSound dialect statements = true := by
  unfold Program.read
  simp only [hsource, Nat.sub_self]
  generalize Grammar.statementsUntil _ _ _ _ = result
  cases result with
  | error e => simp
  | ok r =>
    obtain ⟨ns, last⟩ := r
    have hsame : (∃ l, (Except.ok (ns, last) : Except Fault _) = .ok (statements, l)) ↔
        ns = statements := by simp
    rw [hsame]
    constructor
    · rintro ⟨q, hq, rfl⟩
      dsimp only at hq
      split at hq
      · cases hq
      · next hstray =>
        split at hq
        · cases hq
        · next htwice =>
          cases hq
          refine ⟨rfl, ?_⟩
          cases ht : dialect.typed <;> simp_all [Program.isSound, Program.statements, Node.children]
    · rintro ⟨rfl, hsound⟩
      simp only [Program.isSound, Bool.and_eq_true, Bool.not_eq_true', Bool.or_eq_true,
        Option.isNone_iff_eq_none] at hsound
      have htwice : (if dialect.typed = true then none else Program.exportedTwice ns) = none := by
        rcases hsound.2 with h | h <;> simp [h]
      simp [hsound.1, htwice, Program.statements, Node.children]

namespace Program

theorem isDefaulted_iff {n : Node} : isDefaulted n = true ↔
    n.kind = .property ∧ ∃ key value, n.children = [key, value] ∧ value.kind = .withDefault := by
  constructor
  · intro h
    unfold isDefaulted at h
    split at h
    · exact ⟨rfl, _, _, rfl, rfl⟩
    · cases h
  · obtain ⟨kind, marks, text, span, cs⟩ := n
    rintro ⟨rfl, key, ⟨_, _, _, _, _⟩, rfl, rfl⟩
    rfl

theorem isDefaulted_bare (n : Node) : isDefaulted n.bare = isDefaulted n := by
  rw [Bool.eq_iff_iff, isDefaulted_iff, isDefaulted_iff, Node.kind_bare, Node.children_bare]
  refine and_congr_right fun _ => ⟨?_, ?_⟩
  · rintro ⟨_, _, hcs, hvalue⟩
    obtain ⟨key, rest, hn, -, hrest⟩ := List.map_eq_cons_iff.1 hcs
    obtain ⟨value, rest', rfl, rfl, hnil⟩ := List.map_eq_cons_iff.1 hrest
    obtain rfl := List.map_eq_nil_iff.1 hnil
    exact ⟨key, value, hn, value.kind_bare ▸ hvalue⟩
  · rintro ⟨key, value, hn, hvalue⟩
    exact ⟨key.bare, value.bare, by rw [hn]; rfl, value.kind_bare.trans hvalue⟩

mutual

/-- Places do not matter for defaults outside of patterns. -/
theorem strayDefault_bare (n : Node) : strayDefault n.bare = strayDefault n := by
  obtain ⟨kind, marks, text, span, cs⟩ := n
  have hcs := strayDefaults_bareAll cs
  by_cases hk : kind = .object
  · subst hk
    have hany : (Node.bareAll cs).any isDefaulted = cs.any isDefaulted := by
      rw [Node.bareAll_eq_map, List.any_map]
      exact congrArg _ (funext isDefaulted_bare)
    rw [Node.bare, strayDefault, strayDefault, hany, hcs]
  · rw [Node.bare, strayDefault, strayDefault, hcs]
    · exact hk
    · exact hk

theorem strayDefaults_bareAll (cs : List Node) :
    strayDefaults (Node.bareAll cs) = strayDefaults cs := by
  match cs with
  | [] => rfl
  | c :: cs =>
    rw [Node.bareAll, strayDefaults, strayDefaults, strayDefault_bare c, strayDefaults_bareAll cs]

end

theorem strayDefaults_append (ns ms : List Node) :
    strayDefaults (ns ++ ms) = (strayDefaults ns || strayDefaults ms) := by
  induction ns with
  | nil => rfl
  | cons n ns ih => rw [List.cons_append, strayDefaults, strayDefaults, ih, Bool.or_assoc]

theorem exportNames_of_variableDecl {n : Node} (h : n.kind = .variableDecl) :
    exportNames n = [] := by
  obtain ⟨kind, marks, text, span, cs⟩ := n
  cases h
  rfl

/-- Declarations of variables pass the checks of a program. -/
theorem isSound_append {dialect : Dialect} {ns ms : List Node}
    (hstray : strayDefaults ns = false) (hkind : ∀ n ∈ ns, n.kind = .variableDecl) :
    isSound dialect (ns ++ ms) = isSound dialect ms := by
  have hexports : ns.flatMap exportNames = [] := by
    rw [List.flatMap_eq_nil_iff]
    exact fun n hn => exportNames_of_variableDecl (hkind n hn)
  simp [isSound, strayDefaults_append, hstray, exportedTwice, hexports]

end Program

end ScriptLoader.Syntax
