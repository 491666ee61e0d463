import ScriptLoader.Syntax.Program
import ScriptLoader.Proofs.Syntax.Spelled

/-!
# Reading constants

Declarations of constants that take their values from an entry of an object,
`const a = object["entry"];` or `const { a, b: c } = object["entry"];`, are read as such wherever
their tokens stand.

* `Node.bare`: what is read, up to the places.
* `assignment_entry`: an entry of an object at the end of a statement.
* `commaUntil_items`: a list is read item by item; `binding_properties` is the case of a pattern.
* `statement_constant`: the whole declaration.
-/

namespace ScriptLoader.Syntax

/-! ## Trees without places -/

mutual

/-- A tree without its places. -/
def Node.bare : Node → Node
  | .mk kind marks text _ cs => .mk kind marks text ⟨0, 0⟩ (bareAll cs)

def Node.bareAll : List Node → List Node
  | [] => []
  | c :: cs => bare c :: bareAll cs

end

theorem Node.bareAll_eq_map (cs : List Node) : Node.bareAll cs = cs.map Node.bare := by
  induction cs with
  | nil => rfl
  | cons c cs ih => rw [Node.bareAll, ih, List.map_cons]

theorem Node.kind_bare (n : Node) : n.bare.kind = n.kind := by
  cases n
  rfl

theorem Node.children_bare (n : Node) : n.bare.children = n.children.map Node.bare := by
  cases n
  exact Node.bareAll_eq_map _

open Syntax.Parser Grammar

variable {s : Setting} {c d : Cursor} {w p v name property : String} {k : Nat}

theorem Cursor.next_inside : c.next (inside s) = c.next s := rfl

theorem Reads.inside {ts : List Token} (h : Reads s ts c d) : Reads (inside s) ts c d := by
  induction ts generalizing c with
  | nil => exact h
  | cons t ts ih => exact ⟨h.1, h.2.1, ih h.2.2⟩

theorem Reads.length_le {ts : List Token} (h : Reads s ts c d) (hts : ts ≠ []) :
    c.lastStop + ts.length ≤ s.size := by
  cases ts with
  | nil => exact absurd rfl hts
  | cons t ts => exact h.2.1

/-! ## Where an operand ends -/

/-- A cursor is behind an expression that stands in brackets, in a list, or at the end of a statement
or of the source. -/
def Cursor.Closes (c : Cursor) : Prop :=
  c.token = .punct "]" ∨ c.token = .punct ";" ∨ c.token = .punct ")" ∨ c.token = .punct "," ∨
    c.token = .eof

variable {g : Grammar} {e : Node} {start : Nat} {calls : Bool}

theorem suffixes_of_closes (hc : c.Closes) : suffixes g calls start e s c = .ok (e, c) := by
  have hstop : loop (suffixStep g calls start) (e, false) s c = .ok ((e, false), c) := by
    refine loop_of_inr _ _ ?_
    rcases hc with hc | hc | hc | hc | hc <;>
      simp [suffixStep, bind_apply, cursor_apply, setting_apply, hc, pure_apply]
  rw [suffixes, bind_apply, hstop]
  rfl

theorem updateRest_of_closes (hc : c.Closes) : updateRest start e s c = .ok (e, c) := by
  rcases hc with hc | hc | hc | hc | hc <;>
    simp [updateRest, bind_apply, cursor_apply, punctAt, hc, pure_apply]

theorem operatorAt_of_closes (hc : c.Closes) : operatorAt s c = .ok (none, c) := by
  rcases hc with hc | hc | hc | hc | hc <;>
    simp [operatorAt, bind_apply, cursor_apply, hc, binaryOperators, pure_apply]

theorem assignmentAt_of_closes (hc : c.Closes) : assignmentAt s c = .ok (none, c) := by
  rcases hc with hc | hc | hc | hc | hc <;>
    simp [assignmentAt, bind_apply, cursor_apply, hc, assignmentOperators, pure_apply]

theorem atPunct_of_ne (h : c.token ≠ .punct p) : atPunct p s c = .ok (false, c) := by
  unfold atPunct
  split
  · next q hq =>
    rw [hq, ne_eq, Token.punct.injEq] at h
    simp [h]
  · rfl

theorem skip_of_ne (h : c.token ≠ .punct p) : skip p s c = .ok (false, c) := by
  simp [skip, bind_apply, atPunct_of_ne h, pure_apply]

theorem binaryRule_of_unaryRule (h : unaryRule g s c = .ok (e, d)) (hd : d.Closes) :
    binaryRule g s c = .ok (e, d) := by
  rw [binaryRule, bind_apply, h]
  refine loop_of_inr _ _ ?_
  have hword : wordAt d = "" := by rcases hd with hd | hd | hd | hd | hd <;> simp [wordAt, hd]
  simp [bind_apply, cursor_apply, setting_apply, hword, operatorAt_of_closes hd, reduce, pure_apply]

/-- A string stands alone. -/
theorem unaryRule_string (hc : c.token = .string v) (hd : (c.next s).Closes) :
    unaryRule g s c =
      .ok (.mk .stringLit [] v ⟨c.span.start, (c.next s).lastStop⟩ [], c.next s) := by
  simp [unaryRule, bind_apply, position_apply, cursor_apply, hc, leftHandRule, primary, leaf_apply,
    suffixes_of_closes hd, updateRest_of_closes hd]

theorem assignmentRest_of_closes (hc : c.Closes) : assignmentRest g start e s c = .ok (e, c) := by
  have hquestion : skip "?" s c = .ok (false, c) := skip_of_ne <| by
    rcases hc with hc | hc | hc | hc | hc <;> simp [hc]
  simp [assignmentRest, bind_apply, assignmentAt_of_closes hc, hquestion, pure_apply]

theorem assignment_string (hc : c.token = .string v) (hd : (c.next s).Closes) :
    Grammar.ofDepth (k + 1) .assignment s c =
      .ok (.mk .stringLit [] v ⟨c.span.start, (c.next s).lastStop⟩ [], c.next s) := by
  simp [Grammar.ofDepth, Grammar.rules, assignmentRule, bind_apply, position_apply, cursor_apply,
    next_apply, wordAt, hc, setting_apply, atVariable, atAsyncBare, arrowLikely, ahead, atWord,
    currentPunct, pure_apply, binaryRule_of_unaryRule (unaryRule_string hc hd) hd,
    assignmentRest_of_closes hd]

/-- An expression without a comma behind it. -/
theorem expression_of_assignment (h : Grammar.ofDepth k .assignment s c = .ok (e, d))
    (hd : d.token ≠ .punct ",") : Grammar.ofDepth (k + 1) .expression s c = .ok (e, d) := by
  rw [Grammar.ofDepth, Grammar.rules, expressionRule]
  simp [bind_apply, position_apply, h, atPunct_of_ne hd, pure_apply]

/-- A string in brackets. -/
theorem expression_string (hc : c.token = .string v) (hd : (c.next s).token = .punct "]") :
    Grammar.ofDepth (k + 2) .expression s c =
      .ok (.mk .stringLit [] v ⟨c.span.start, (c.next s).lastStop⟩ [], c.next s) :=
  expression_of_assignment (assignment_string hc (Or.inl hd)) (by simp [hd])

/-! ## An entry of an object -/

/-- A word that is a variable wherever it stands and begins nothing else. -/
def isPlainName (w : String) : Bool :=
  !(reserved.contains w) && !(["async", "await", "yield"].contains w)

theorem nameable_of_isPlainName (hw : isPlainName w = true) : nameable s w = true := by
  simp only [isPlainName, List.contains_cons, List.contains_nil, Bool.or_false, Bool.and_eq_true,
    Bool.not_eq_true', Bool.or_eq_false_iff] at hw
  rw [nameable, hw.1, hw.2.2.1, hw.2.2.2]
  rfl

theorem primary_name (hc : c.token = .name w false) (hw : isPlainName w = true) :
    primary g s c = .ok (.mk .reference [] w ⟨c.span.start, (c.next s).lastStop⟩ [], c.next s) := by
  have hname : nameable s w = true := nameable_of_isPlainName hw
  simp only [isPlainName, reserved, List.contains_cons, List.contains_nil, Bool.or_false,
    Bool.and_eq_true, Bool.not_eq_true', Bool.or_eq_false_iff, beq_eq_false_iff_ne] at hw
  simp [primary, bind_apply, position_apply, cursor_apply, hc, variable_, setting_apply, leaf_apply,
    hname, hw]

/-- A string in brackets behind an object. -/
theorem suffixes_entry (hreads : Reads s [.punct "[", .string v, .punct "]"] c d) (hd : d.Closes) :
    ∃ n, suffixes (Grammar.ofDepth (k + 2)) true start e s c = .ok (n, d) ∧
      n.bare = .mk .index [] "" ⟨0, 0⟩ [e.bare, .mk .stringLit [] v ⟨0, 0⟩ []] := by
  obtain ⟨hopen, -, hstring, -, hclose, -, rfl⟩ := hreads
  have hinner := expression_string (s := inside s) (k := k) hstring hclose
  let n : Node := .mk .index [] "" ⟨start, (((c.next s).next s).next s).lastStop⟩
    [e, .mk .stringLit [] v ⟨(c.next s).span.start, ((c.next s).next s).lastStop⟩ []]
  -- One round reads the brackets, and the next one finds nothing that goes on.
  have hstep : suffixStep (Grammar.ofDepth (k + 2)) true start (e, false) s c =
      .ok (.inl (n, false), ((c.next s).next s).next s) := by
    simp [suffixStep, bind_apply, cursor_apply, setting_apply, hopen, advance_eq, innerExpression,
      within_apply, hinner, Cursor.next_inside, expect_of_token s _ hclose, finish_apply,
      pure_apply, n]
  have hstop : suffixStep (Grammar.ofDepth (k + 2)) true start (n, false) s
      (((c.next s).next s).next s) = .ok (.inr (n, false), ((c.next s).next s).next s) := by
    rcases hd with hd | hd | hd | hd | hd <;>
      simp [suffixStep, bind_apply, cursor_apply, setting_apply, hd, pure_apply]
  refine ⟨n, ?_, rfl⟩
  rw [suffixes, bind_apply, loop_apply, rounds_succ, hstep]
  simp only
  rw [rounds_succ, hstop]
  rfl

/-- A name with brackets or parentheses behind it, and nothing behind those. -/
theorem assignment_of_suffixes {n : Node} (hw : isPlainName w = true)
    (hname : c.token = .name w false) (hopen : (c.next s).token = .punct p) (hp : p ≠ "=>")
    (hn : suffixes (Grammar.ofDepth (k + 2)) true c.span.start
      (.mk .reference [] w ⟨c.span.start, (c.next s).lastStop⟩ []) s (c.next s) = .ok (n, d))
    (hpure : c.pureMark = true → markCallPure n = n) (hd : d.Closes) :
    Grammar.ofDepth (k + 3) .assignment s c = .ok (n, d) := by
  have hleft : leftHandRule (Grammar.ofDepth (k + 2)) s c = .ok (n, d) := by
    simp [leftHandRule, bind_apply, position_apply, primary_name hname hw, hn]
  have hne : ∀ v, isPlainName v = false → w ≠ v := by
    rintro v hv rfl
    rw [hw] at hv
    cases hv
  have hunary : unaryRule (Grammar.ofDepth (k + 2)) s c = .ok (n, d) := by
    cases hmark : c.pureMark <;>
      simp [unaryRule, bind_apply, position_apply, cursor_apply, hname, setting_apply, hleft, hmark,
        hpure, updateRest_of_closes hd, hne "delete" (by decide), hne "void" (by decide),
        hne "typeof" (by decide), hne "await" (by decide)]
  change assignmentRule (Grammar.ofDepth (k + 2)) s c = _
  simp [assignmentRule, bind_apply, position_apply, cursor_apply, next_apply, wordAt, hname,
    punctAt, hopen, hp, setting_apply, atVariable, atAsyncBare, arrowLikely, ahead, atWord,
    currentPunct, pure_apply, binaryRule_of_unaryRule hunary hd, assignmentRest_of_closes hd,
    hne "yield" (by decide), hne "async" (by decide)]

/-- An entry of an object, up to the end of a statement. -/
theorem assignment_entry (hw : isPlainName w = true)
    (hreads : Reads s [.name w false, .punct "[", .string v, .punct "]"] c d) (hd : d.Closes) :
    ∃ n, Grammar.ofDepth (k + 3) .assignment s c = .ok (n, d) ∧
      n.bare = .mk .index [] "" ⟨0, 0⟩
        [.mk .reference [] w ⟨0, 0⟩ [], .mk .stringLit [] v ⟨0, 0⟩ []] := by
  obtain ⟨hname, -, hreads⟩ := hreads
  obtain ⟨n, hn, hbare⟩ : ∃ n, suffixes (Grammar.ofDepth (k + 2)) true c.span.start
      (.mk .reference [] w ⟨c.span.start, (c.next s).lastStop⟩ []) s (c.next s) = .ok (n, d) ∧
      n.bare = .mk .index [] "" ⟨0, 0⟩
        [.mk .reference [] w ⟨0, 0⟩ [], .mk .stringLit [] v ⟨0, 0⟩ []] :=
    suffixes_entry hreads hd
  have hpure : markCallPure n = n := by
    obtain ⟨kind, marks, text, span, children⟩ := n
    obtain rfl : kind = .index := by
      simp only [Node.bare, Node.mk.injEq] at hbare
      exact hbare.1
    rfl
  exact ⟨n, assignment_of_suffixes hw hname hreads.1 (by decide) hn (fun _ => hpure) hd, hbare⟩

/-! ## Patterns of properties -/

/-- Tokens are read as one item of a list, up to a comma or the end of the list. -/
structure ReadsItem (s : Setting) (close : String) (item : Parser Node) (ts : List Token)
    (tree : Node) : Prop where
  opens : ∃ t us, ts = t :: us ∧ t ≠ .punct close
  reads : ∀ c d, Reads s ts c d → d.token = .punct "," ∨ d.token = .punct close →
    ∃ n, item s c = .ok (n, d) ∧ n.bare = tree

/-- A round of `commaUntil`. -/
def Parser.commaStep (close : String) (item : Parser Node) (acc : List Node) :
    Parser (List Node ⊕ List Node) := do
  if ← skip close then return .inr acc.reverse
  let a ← item
  if ← skip close then return .inr (a :: acc).reverse
  expect ","
  return .inl (a :: acc)

/-- The tokens of items with commas between them. -/
def commaTokens (items : List (List Token × Node)) : List Token :=
  [Token.punct ","].intercalate (items.map (·.1))

variable {item : Parser Node} {close : String} {items : List (List Token × Node)}

/-- Behind the first item stands the end of the list, or a comma and the other ones. -/
theorem commaTokens_cons (close : String) (i : List Token × Node)
    (items : List (List Token × Node)) :
    ∃ u vs, commaTokens (i :: items) ++ [.punct close] = i.1 ++ u :: vs ∧
      (items = [] ∧ u = .punct close ∧ vs = [] ∨
        items ≠ [] ∧ u = .punct "," ∧ vs = commaTokens items ++ [.punct close]) := by
  cases items with
  | nil => exact ⟨_, _, by simp [commaTokens], Or.inl ⟨rfl, rfl, rfl⟩⟩
  | cons j items => exact ⟨_, _, by simp [commaTokens], Or.inr ⟨by simp, rfl, rfl⟩⟩

theorem length_le_commaTokens (hread : ∀ i ∈ items, ReadsItem s close item i.1 i.2) :
    items.length ≤ (commaTokens items).length := by
  induction items with
  | nil => simp
  | cons i items ih =>
    obtain ⟨hi, hothers⟩ := List.forall_mem_cons.1 hread
    obtain ⟨t, us, hts, -⟩ := hi.opens
    have hrest := ih hothers
    cases items with
    | nil => simp [commaTokens, hts]
    | cons j items =>
      simp only [commaTokens, List.map_cons, List.intercalate_cons_cons, List.length_append,
        List.length_cons, hts] at hrest ⊢
      omega

/-- Items with commas between them are read one after the other. -/
theorem rounds_commaStep (hclose : close ≠ ",") (hitems : items ≠ [])
    (hread : ∀ i ∈ items, ReadsItem s close item i.1 i.2) {fuel : Nat}
    (hfuel : items.length ≤ fuel) (acc : List Node)
    (hreads : Reads s (commaTokens items ++ [.punct close]) c d) :
    ∃ ns, rounds (commaStep close item) fuel acc s c = .ok (acc.reverse ++ ns, d) ∧
      ns.map Node.bare = items.map (·.2) := by
  -- The token behind an item tells whether it is the last one.
  induction items generalizing c acc fuel with
  | nil => exact absurd rfl hitems
  | cons i items ih =>
    obtain ⟨hi, hothers⟩ := List.forall_mem_cons.1 hread
    obtain ⟨fuel, rfl⟩ := Nat.exists_eq_succ_of_ne_zero (Nat.ne_of_gt (Nat.zero_lt_of_lt hfuel))
    have hfuel : items.length ≤ fuel := by simpa using hfuel
    obtain ⟨t, us, hts, ht⟩ := hi.opens
    obtain ⟨u, vs, htokens, hcases⟩ := commaTokens_cons close i items
    rw [htokens] at hreads
    obtain ⟨e, hone, hu, -, hrest⟩ := hreads.split
    have hfirst : skip close s c = .ok (false, c) := by
      rw [hts] at hone
      exact skip_of_ne (hone.1 ▸ ht)
    rcases hcases with ⟨rfl, rfl, rfl⟩ | ⟨hne, rfl, rfl⟩
    · obtain ⟨n, hn, hbare⟩ := hi.reads c e hone (Or.inr hu)
      refine ⟨[n], ?_, by simp [hbare]⟩
      cases hrest
      simp [rounds_succ, commaStep, bind_apply, hfirst, hn, skip_of_token s e hu, pure_apply]
    · obtain ⟨n, hn, hbare⟩ := hi.reads c e hone (Or.inl hu)
      obtain ⟨ns, hns, htrees⟩ := ih hne hothers hfuel (n :: acc) hrest
      refine ⟨n :: ns, ?_, by simp [hbare, htrees]⟩
      have hcomma : skip close s e = .ok (false, e) := by
        refine skip_of_ne ?_
        rw [hu, ne_eq, Token.punct.injEq]
        exact hclose.symm
      have hstep : commaStep close item acc s c = .ok (.inl (n :: acc), e.next s) := by
        simp [commaStep, bind_apply, hfirst, hn, hcomma, expect_of_token s e hu, pure_apply]
      rw [rounds_succ, hstep]
      simpa using hns

theorem commaUntil_items (hclose : close ≠ ",") (hitems : items ≠ [])
    (hread : ∀ i ∈ items, ReadsItem s close item i.1 i.2)
    (hreads : Reads s (commaTokens items ++ [.punct close]) c d) :
    ∃ ns, commaUntil close item s c = .ok (ns, d) ∧ ns.map Node.bare = items.map (·.2) := by
  have hlength := length_le_commaTokens hread
  have hbound := hreads.length_le (by simp)
  rw [List.length_append] at hbound
  exact rounds_commaStep hclose hitems hread (by omega) [] hreads

/-! ## Declared names -/

theorem binding_name (hc : c.token = .name w false) (hw : nameable s w = true) :
    Grammar.ofDepth (k + 1) .binding s c =
      .ok (.mk .binding [] w ⟨c.span.start, (c.next s).lastStop⟩ [], c.next s) := by
  change bindingRule (Grammar.ofDepth k) s c = _
  simp [bindingRule, bind_apply, position_apply, skip, atPunct, hc, variable_, cursor_apply,
    setting_apply, leaf_apply, hw, pure_apply]

theorem defaulted_of_ne (h : c.token ≠ .punct "=") : defaulted g start e s c = .ok (e, c) := by
  simp [defaulted, bind_apply, skip_of_ne h, pure_apply]

/-- A name in a pattern. -/
def shorthandTree (w : String) : Node :=
  .mk .patternProperty [.shorthand] "" ⟨0, 0⟩
    [.mk .word [] w ⟨0, 0⟩ [], .mk .binding [] w ⟨0, 0⟩ []]

/-- A name in a pattern, behind the property that it stands for. -/
def renamedTree (kind : Kind) (property w : String) : Node :=
  .mk .patternProperty [] "" ⟨0, 0⟩
    [.mk kind [] property ⟨0, 0⟩ [], .mk .binding [] w ⟨0, 0⟩ []]

theorem readsItem_shorthand (hw : nameable s w = true) :
    ReadsItem s "\x7d" (objectPatternItem g) [.name w false] (shorthandTree w) := by
  refine ⟨⟨_, _, rfl, by simp⟩, ?_⟩
  rintro c d ⟨hc, -, rfl⟩ hd
  have hcolon : punctAt (c.next s) ≠ ":" := by rcases hd with hd | hd <;> simp [punctAt, hd]
  have hequals : (c.next s).token ≠ .punct "=" := by rcases hd with hd | hd <;> simp [hd]
  let span : Span := ⟨c.span.start, (c.next s).lastStop⟩
  refine ⟨.mk .patternProperty [.shorthand] "" span
    [.mk .word [] w span [], .mk .binding [] w span []], ?_, rfl⟩
  have hdots : skip "..." s c = .ok (false, c) := skip_of_ne (by simp [hc])
  simp [objectPatternItem, bind_apply, position_apply, hdots, cursor_apply, next_apply, atVariable,
    hc, hw, hcolon, word, leaf_apply, defaulted_of_ne hequals, finish_apply, span, Node.text,
    Node.span]

/-- What a token is read as where a property may stand. -/
def IsKey (t : Token) (kind : Kind) (property : String) : Prop :=
  t = .name property false ∧ kind = .word ∨ t = .string property ∧ kind = .stringLit

theorem readsItem_renamed {t : Token} {kind : Kind} (ht : IsKey t kind property)
    (hw : nameable s w = true) :
    ReadsItem s "\x7d" (objectPatternItem (Grammar.ofDepth (k + 1)))
      [t, .punct ":", .name w false] (renamedTree kind property w) := by
  refine ⟨⟨t, _, rfl, ?_⟩, ?_⟩
  · rcases ht with ⟨rfl, -⟩ | ⟨rfl, -⟩ <;> simp
  rintro c d ⟨hc, -, hcolon, -, hname, -, rfl⟩ hd
  have hequals : (((c.next s).next s).next s).token ≠ .punct "=" := by
    rcases hd with hd | hd <;> simp [hd]
  have hkey : propertyKey (Grammar.ofDepth (k + 1)) s c =
      .ok (.mk kind [] property ⟨c.span.start, (c.next s).lastStop⟩ [], c.next s) := by
    rcases ht with ⟨rfl, rfl⟩ | ⟨rfl, rfl⟩ <;>
      simp [propertyKey, bind_apply, cursor_apply, hc, leaf_apply]
  have hdots : skip "..." s c = .ok (false, c) := by
    refine skip_of_ne ?_
    rcases ht with ⟨rfl, -⟩ | ⟨rfl, -⟩ <;> simp [hc]
  have hbinding := binding_name (k := k) hname hw
  let span : Span := ⟨c.span.start, (((c.next s).next s).next s).lastStop⟩
  refine ⟨.mk .patternProperty [] "" span
    [.mk kind [] property ⟨c.span.start, (c.next s).lastStop⟩ [],
      .mk .binding [] w ⟨((c.next s).next s).span.start, span.stop⟩ []], ?_, rfl⟩
  simp [objectPatternItem, bind_apply, position_apply, hdots, cursor_apply, next_apply, atVariable,
    punctAt, hcolon, hkey, expect_of_token s _ hcolon, hbinding, defaulted_of_ne hequals,
    finish_apply, isComputed, Node.has, Node.marks, span]

theorem restIsLast_of_properties {ns : List Node} (h : ∀ n ∈ ns, n.kind = .patternProperty) :
    restIsLast ns = true := by
  rw [restIsLast, List.all_eq_true]
  intro n hn
  simp [Node.is, h n (List.dropLast_subset ns hn)]

/-- Properties in braces are a pattern. -/
theorem binding_properties (hitems : items ≠ [])
    (hread : ∀ i ∈ items, ReadsItem s "\x7d" (objectPatternItem (Grammar.ofDepth k)) i.1 i.2)
    (hkind : ∀ i ∈ items, i.2.kind = .patternProperty)
    (hreads : Reads s (.punct "\x7b" :: commaTokens items ++ [.punct "\x7d"]) c d) :
    ∃ n, Grammar.ofDepth (k + 1) .binding s c = .ok (n, d) ∧
      n.bare = .mk .objectPattern [] "" ⟨0, 0⟩ (items.map (·.2)) := by
  obtain ⟨hc, -, hreads⟩ := hreads
  obtain ⟨ns, hns, htrees⟩ := commaUntil_items (by decide) hitems hread hreads
  have hlast : restIsLast ns = true := by
    refine restIsLast_of_properties fun n hn => ?_
    obtain ⟨i, hi, htree⟩ := List.mem_map.1 (htrees ▸ List.mem_map_of_mem (f := Node.bare) hn)
    rw [← Node.kind_bare, ← htree]
    exact hkind i hi
  refine ⟨.mk .objectPattern [] "" ⟨c.span.start, d.lastStop⟩ ns, ?_, ?_⟩
  · change bindingRule (Grammar.ofDepth k) s c = _
    have hbracket : skip "[" s c = .ok (false, c) := skip_of_ne (by simp [hc])
    simp [bindingRule, bind_apply, position_apply, hbracket, skip_of_token s c hc, hns, hlast,
      finish_apply]
  · rw [Node.bare, Node.bareAll_eq_map, htrees]

/-! ## Constants -/

/-- The declaration of a constant, read from an entry of an object. -/
def constantTree (target : Node) (object entry : String) : Node :=
  .mk .variableDecl [] "const" ⟨0, 0⟩
    [.mk .declarator [] "" ⟨0, 0⟩
      [target, .mk .index [] "" ⟨0, 0⟩
        [.mk .reference [] object ⟨0, 0⟩ [], .mk .stringLit [] entry ⟨0, 0⟩ []]]]

/-- Tokens are read as what is declared, up to its value. -/
structure ReadsTarget (s : Setting) (g : Grammar) (ts : List Token) (tree : Node) : Prop where
  opens : ∃ t us, ts = t :: us ∧ t ≠ .name "enum" false
  reads : ∀ c d, Reads s ts c d → d.token = .punct "=" →
    ∃ n, g .binding s c = .ok (n, d) ∧ n.bare = tree

theorem withType_untyped (cs : List Node) : Node.withType cs untyped = cs :=
  List.append_nil cs

theorem declarator_entry {ts : List Token} {tree : Node} {object entry : String}
    (htarget : ReadsTarget s (Grammar.ofDepth (k + 3)) ts tree)
    (hobject : isPlainName object = true)
    (hreads : Reads s (ts ++ [.punct "=", .name object false, .punct "[", .string entry,
      .punct "]"]) c d) (hd : d.Closes) :
    ∃ n, declarator (Grammar.ofDepth (k + 3)) "const" false s c = .ok (n, d) ∧
      n.bare = .mk .declarator [] "" ⟨0, 0⟩
        [tree, .mk .index [] "" ⟨0, 0⟩
          [.mk .reference [] object ⟨0, 0⟩ [], .mk .stringLit [] entry ⟨0, 0⟩ []]] := by
  obtain ⟨e, hts, he, -, hvalue⟩ := hreads.split
  obtain ⟨p, hp, hpbare⟩ := htarget.reads c e hts he
  obtain ⟨v, hv, hvbare⟩ := assignment_entry (k := k) hobject hvalue hd
  have habsent : v.isAbsent = false := by
    rw [Node.isAbsent, ← Node.kind_bare, hvbare]
    rfl
  have hbang : skip "!" s e = .ok (false, e) := skip_of_ne (by simp [he])
  have hcolon : skip ":" s e = .ok (false, e) := skip_of_ne (by simp [he])
  have htype : variableType (Grammar.ofDepth (k + 3)) s e = .ok (untyped, e) := by
    cases hline : e.newline <;>
      simp [variableType, annotation?, bind_apply, cursor_apply, hline, hbang, hcolon, pure_apply]
  refine ⟨.mk .declarator [] "" ⟨c.span.start, d.lastStop⟩ [p, v], ?_, ?_⟩
  · cases htyped : s.dialect.typed <;>
      simp [declarator, bind_apply, position_apply, hp, setting_apply, htyped, htype, pure_apply,
        skip_of_token s e he, hv, habsent, withType_untyped, finish_apply]
  · simp only [Node.bare, Node.bareAll, hpbare, hvbare]

/-- The declaration of a constant is read as that. -/
theorem statement_constant {ts : List Token} {tree : Node} {object entry : String}
    (htarget : ReadsTarget (inside s) (Grammar.ofDepth (k + 3)) ts tree)
    (hobject : isPlainName object = true)
    (hreads : Reads s (.name "const" false :: ts ++ [.punct "=", .name object false, .punct "[",
      .string entry, .punct "]", .punct ";"]) c d) :
    ∃ n, Grammar.ofDepth (k + 4) .statement s c = .ok (n, d) ∧
      n.bare = constantTree tree object entry := by
  obtain ⟨hc, -, hrest⟩ := hreads
  have hassoc : ts ++ [.punct "=", .name object false, .punct "[", .string entry, .punct "]",
      .punct ";"] = (ts ++ [.punct "=", .name object false, .punct "[", .string entry,
      .punct "]"]) ++ [.punct ";"] := by simp
  rw [List.append_eq, hassoc] at hrest
  obtain ⟨e, hdeclarator, he, -, rfl⟩ := hrest.split
  obtain ⟨n, hn, hbare⟩ := declarator_entry htarget hobject hdeclarator.inside (Or.inr (Or.inl he))
  have hword : wordAt (c.next s) ≠ "enum" := by
    obtain ⟨t, us, rfl, ht⟩ := htarget.opens
    have hfirst : (c.next s).token = t := hdeclarator.1
    intro h
    unfold wordAt at h
    split at h
    · next w hw =>
      subst h
      exact ht (hfirst ▸ hw)
    · exact absurd h (by decide)
  have hcomma : skip "," (inside s) e = .ok (false, e) := skip_of_ne (by simp [he])
  have hvariables : variablesRest (Grammar.ofDepth (k + 3)) c.span.start "const" false (inside s)
      (c.next s) = .ok (.mk .variableDecl [] "const" ⟨c.span.start, e.lastStop⟩ [n], e) := by
    have hloop : loop (fun (acc : List Node) => do
        if ← skip "," then
          return .inl ((← declarator (Grammar.ofDepth (k + 3)) "const" false) :: acc)
        else return .inr acc.reverse) [n] (inside s) e = .ok ([n], e) := by
      refine loop_of_inr _ _ ?_
      simp [bind_apply, hcomma, pure_apply]
    simp [variablesRest, separated, bind_apply, hn, hloop, finish_apply]
  refine ⟨.mk .variableDecl [] "const" ⟨c.span.start, (e.next s).lastStop⟩ [n], ?_, ?_⟩
  · change statementRule (Grammar.ofDepth (k + 3)) s c = _
    have hkind : variablesAt s c = .ok ("const", c) := by
      have hconst : wordAt c = "const" := by simp [wordAt, hc]
      simp [variablesAt, bind_apply, cursor_apply, hconst, next_apply, hword, pure_apply]
    have hwithin : variablesRest (Grammar.ofDepth (k + 3)) c.span.start "const" false
        { s with allowIn := true, arrowTypes := true } (c.next s) = _ := hvariables
    simp [statementRule, bind_apply, position_apply, cursor_apply, hc, hkind, skipVariablesWord,
      advance_eq, within_apply, hwithin, endStatement, skip_of_token s e he, pure_apply,
      Node.withSpan]
  · simp only [Node.bare, Node.bareAll, hbare, constantTree]

end ScriptLoader.Syntax
