import ScriptLoader.Proofs.Compile.Woven
import ScriptLoader.Proofs.Syntax.Behind

/-!
# What stands in front is read back

The statements that linking puts in front of a text are read as the declarations of constants that
they stand for, and what is behind them is read from its own place.

* `Hoist.tokens`, `Hoist.tree`: what a statement in front spells and what it is read as.
* `Hoist.readable`: the names of a statement in front are read as names.
* `Continues`: how a parser goes on behind declarations of constants.
* `own_continues`: the grammar of this library goes on like that.
-/

namespace ScriptLoader.Compile.Linked

open Syntax Syntax.Parser Syntax.Grammar

variable {R : Reader} {dialect : Dialect} {s : Setting} {c d : Cursor} {k : Nat}

/-! ## Tokens and trees -/

/-- The property of a pattern as a token. -/
def keyToken (property : String) : Token :=
  if isIdentifier property then .name property false else .string property

def Field.tokens : Field → List Token
  | .same name => [.name name false]
  | .renamed property name => [keyToken property, .punct ":", .name name false]

/-- What a name in a pattern is read as. -/
def Field.tree : Field → Node
  | .same name => shorthandTree name
  | .renamed property name =>
    renamedTree (if isIdentifier property then .word else .stringLit) property name

/-- The names of a pattern, as they are read with commas between them. -/
def fieldItems (fields : List Field) : List (List Token × Node) :=
  fields.map fun f => (f.tokens, f.tree)

theorem trees_fieldItems (fields : List Field) :
    (fieldItems fields).map (·.2) = fields.map Field.tree := by
  simp [fieldItems]

/-- What a statement in front declares, as tokens. -/
def Hoist.target : Hoist → List Token
  | .whole name _ => [.name name false]
  | .fields names _ => .punct "\x7b" :: commaTokens (fieldItems names) ++ [.punct "\x7d"]

def Hoist.dep : Hoist → Specifier
  | .whole _ dep => dep
  | .fields _ dep => dep

def Hoist.tokens (h : Hoist) : List Token :=
  .name "const" false :: h.target ++ [.punct "=", .name scopeObject false, .punct "[",
    .string h.dep.text, .punct "]", .punct ";"]

/-- The declaration that a statement in front is read as. -/
def Hoist.tree (h : Hoist) : Node :=
  constantTree
    (match h with
      | .whole name _ => .mk .binding [] name ⟨0, 0⟩ []
      | .fields names _ => .mk .objectPattern [] "" ⟨0, 0⟩ (names.map Field.tree))
    scopeObject h.dep.text

/-! ## What can be read back -/

/-- Whether a text is read as the name of a variable. -/
def isVariable (s : Setting) (name : String) : Bool := isNameText name.toList && nameable s name

/-- Whether a name in a pattern is read back: a property that is not quoted has to be read as a
name, too. -/
def Field.readable (s : Setting) : Field → Bool
  | .same name => isVariable s name
  | .renamed property name =>
    (!isIdentifier property || isNameText property.toList) && isVariable s name

def Hoist.readable (s : Setting) : Hoist → Bool
  | .whole name _ => isVariable s name
  | .fields names _ => !names.isEmpty && names.all (Field.readable s)

-- A circled letter is alphabetic, so that it is not quoted, but no name begins with it.
example : Field.readable (Program.setting .typedModule 0) (.renamed "Ⓐ" "a") = false := by
  decide +kernel

theorem keyToken_isKey (property : String) :
    IsKey (keyToken property) (if isIdentifier property then .word else .stringLit) property := by
  unfold keyToken
  split
  · exact Or.inl ⟨rfl, rfl⟩
  · exact Or.inr ⟨rfl, rfl⟩

theorem readsItem_field {f : Field} (hf : f.readable s = true) :
    ReadsItem s "\x7d" (objectPatternItem (Grammar.ofDepth (k + 1))) f.tokens f.tree := by
  cases f with
  | same name =>
    simp only [Field.readable, isVariable, Bool.and_eq_true] at hf
    exact readsItem_shorthand hf.2
  | renamed property name =>
    simp only [Field.readable, isVariable, Bool.and_eq_true] at hf
    exact readsItem_renamed (keyToken_isKey property) hf.2.2

theorem Field.kind_tree (f : Field) : f.tree.kind = .patternProperty := by
  cases f <;> rfl

theorem readsTarget_hoist {h : Hoist} (hh : h.readable s = true) :
    ∃ tree, h.tree = constantTree tree scopeObject h.dep.text ∧
      ReadsTarget s (Grammar.ofDepth (k + 3)) h.target tree := by
  cases h with
  | whole name dep =>
    simp only [Hoist.readable, isVariable, Bool.and_eq_true] at hh
    refine ⟨_, rfl, ⟨_, _, rfl, ?_⟩, ?_⟩
    · rintro ⟨⟩
      exact absurd hh.2 (by simp [nameable, reserved])
    · rintro c d ⟨hc, -, rfl⟩ -
      exact ⟨_, binding_name hc hh.2, rfl⟩
  | fields names dep =>
    simp only [Hoist.readable, Bool.and_eq_true, Bool.not_eq_true', List.isEmpty_eq_false_iff,
      List.all_eq_true] at hh
    refine ⟨_, rfl, ⟨_, _, rfl, by simp⟩, fun c d hreads _ => ?_⟩
    have hbinding := @binding_properties s c d (k + 2) (fieldItems names)
      (by simpa [fieldItems] using hh.1) ?_ ?_ hreads
    · rwa [trees_fieldItems] at hbinding
    · intro i hi
      obtain ⟨f, hf, rfl⟩ := List.mem_map.1 hi
      exact readsItem_field (hh.2 f hf)
    · intro i hi
      obtain ⟨f, -, rfl⟩ := List.mem_map.1 hi
      exact f.kind_tree

/-- A statement in front is read as the declaration that it stands for. -/
theorem statement_hoist {h : Hoist} (hh : h.readable s = true) (hreads : Reads s h.tokens c d) :
    ∃ n, Grammar.ofDepth (k + 4) .statement s c = .ok (n, d) ∧ n.bare = h.tree := by
  have hinside : h.readable (inside s) = true := by
    cases h <;> exact hh
  obtain ⟨tree, htree, htarget⟩ := readsTarget_hoist (k := k) hinside
  rw [htree]
  exact statement_constant htarget (by decide) hreads

/-! ## Texts -/

theorem scans_key {property : String}
    (hp : (!isIdentifier property || isNameText property.toList) = true) (rest : List Char) :
    Scans ((key property).toList ++ ':' :: rest) (keyToken property) (':' :: rest) := by
  unfold key keyToken
  split
  · next hkey =>
    have hname : isNameText property.toList = true := by simpa [hkey] using hp
    have hscan := @scans_name _ rest ':' hname (by decide)
    rwa [String.ofList_toList] at hscan
  · exact scans_isQuoted (isQuoted_jsonQuoted property) (':' :: rest)

theorem scans_variable {name : String} (h : isVariable s name = true) {c : Char}
    (hc : endsName c = true) (rest : List Char) :
    Scans (name.toList ++ c :: rest) (.name name false) (c :: rest) := by
  simp only [isVariable, Bool.and_eq_true] at h
  have hscan := @scans_name _ rest _ h.1 hc
  rwa [String.ofList_toList] at hscan

theorem spells_field {f : Field} (hf : f.readable s = true) {c : Char} (hc : endsName c = true)
    (rest : List Char) :
    Spells (' ' :: (f.text.toList ++ c :: rest)) f.tokens (c :: rest) := by
  cases f with
  | same name => exact .blank (scans_variable hf hc rest) .nil
  | renamed property name =>
    simp only [Field.readable, Bool.and_eq_true] at hf
    have htext : (Field.renamed property name).text.toList ++ c :: rest =
        (key property).toList ++ ':' :: ' ' :: (name.toList ++ c :: rest) := by
      change (key property ++ ": " ++ name).toList ++ c :: rest = _
      simp
    rw [htext]
    exact .blank (scans_key hf.1 _)
      (.next (scans_punct (by decide)) (.blank (scans_variable hf.2 hc rest) .nil))

theorem spells_fields {fields : List Field} (hne : fields ≠ [])
    (hf : ∀ f ∈ fields, f.readable s = true) (rest : List Char) :
    Spells (' ' :: ((commas (fields.map Field.text)).toList ++ ' ' :: rest))
      (commaTokens (fieldItems fields)) (' ' :: rest) := by
  induction fields with
  | nil => exact absurd rfl hne
  | cons f fields ih =>
    obtain ⟨hfirst, hothers⟩ := List.forall_mem_cons.1 hf
    cases fields with
    | nil =>
      simpa [commas, commaTokens, fieldItems] using spells_field hfirst (c := ' ') (by decide) rest
    | cons f' fields =>
      have htext : (commas ((f :: f' :: fields).map Field.text)).toList ++ ' ' :: rest =
          f.text.toList ++ ',' :: ' ' ::
            ((commas ((f' :: fields).map Field.text)).toList ++ ' ' :: rest) := by
        simp [commas]
      have htokens : commaTokens (fieldItems (f :: f' :: fields)) =
          f.tokens ++ .punct "," :: commaTokens (fieldItems (f' :: fields)) := by
        simp [commaTokens, fieldItems]
      rw [htext, htokens]
      exact (spells_field hfirst (by decide) _).append
        (.next (scans_punct (by decide)) (ih (by simp) hothers))

/-- What a statement in front reads its names from. -/
theorem spells_entry (dep : Specifier) (rest : List Char) :
    Spells (' ' :: '=' :: ' ' :: ((scopeEntry dep).toList ++ ';' :: ' ' :: rest))
      [.punct "=", .name scopeObject false, .punct "[", .string dep.text, .punct "]", .punct ";"]
      (' ' :: rest) := by
  obtain ⟨body, hbody⟩ : ∃ body, (Text.jsonQuoted dep.text).toList = '"' :: body :=
    ⟨_, String.toList_ofList⟩
  have htext : (scopeEntry dep).toList ++ ';' :: ' ' :: rest =
      scopeObject.toList ++ '[' :: '"' :: (body ++ ']' :: ';' :: ' ' :: rest) := by
    change (scopeObject ++ "[" ++ Text.jsonQuoted dep.text ++ "]").toList ++ ';' :: ' ' :: rest = _
    simp [hbody]
  have hquoted := scans_isQuoted (isQuoted_jsonQuoted dep.text) (']' :: ';' :: ' ' :: rest)
  rw [hbody] at hquoted
  have hobject := @scans_name scopeObject.toList ('"' :: (body ++ ']' :: ';' :: ' ' :: rest)) '['
    (by decide) (by decide)
  rw [String.ofList_toList] at hobject
  rw [htext]
  exact .blank (scans_punct (by decide)) (.blank hobject (.next (scans_punct (by decide))
    (.next hquoted (.next (scans_punct (by decide)) (.next (scans_punct (by decide)) .nil)))))

/-- A statement in front spells its tokens. -/
theorem spells_hoist {h : Hoist} (hh : h.readable s = true) {lead : List Char}
    (hlead : lead = [] ∨ lead = [' ']) (rest : List Char) :
    Spells (lead ++ (h.text.toList ++ ' ' :: rest)) h.tokens (' ' :: rest) := by
  have hconst : ∀ text, Scans ("const".toList ++ ' ' :: text) (.name "const" false) (' ' :: text) :=
    fun text => scans_name (by decide) (by decide)
  cases h with
  | whole name dep =>
    have htext : (Hoist.whole name dep).text.toList ++ ' ' :: rest = "const".toList ++ ' ' ::
        (name.toList ++ ' ' :: '=' :: ' ' :: ((scopeEntry dep).toList ++ ';' :: ' ' :: rest)) := by
      change ("const " ++ name ++ " = " ++ scopeEntry dep ++ ";").toList ++ ' ' :: rest = _
      simp
    rw [htext]
    exact .cons hlead (hconst _) ((Spells.blank (scans_variable hh (by decide) _) .nil).append
      (spells_entry dep rest))
  | fields names dep =>
    simp only [Hoist.readable, Bool.and_eq_true, Bool.not_eq_true', List.isEmpty_eq_false_iff,
      List.all_eq_true] at hh
    have htext : (Hoist.fields names dep).text.toList ++ ' ' :: rest = "const".toList ++ ' ' ::
        '\x7b' :: ' ' :: ((commas (names.map Field.text)).toList ++ ' ' :: '\x7d' :: ' ' :: '=' ::
          ' ' :: ((scopeEntry dep).toList ++ ';' :: ' ' :: rest)) := by
      change ("const \x7b " ++ commas (names.map Field.text) ++
        (" \x7d = " ++ scopeEntry dep ++ ";")).toList ++ ' ' :: rest = _
      simp
    have htokens : (Hoist.fields names dep).tokens = .name "const" false :: .punct "\x7b" ::
        (commaTokens (fieldItems names) ++ [.punct "\x7d", .punct "=", .name scopeObject false,
          .punct "[", .string dep.text, .punct "]", .punct ";"]) := by
      simp [Hoist.tokens, Hoist.target, Hoist.dep]
    rw [htext, htokens]
    refine .cons hlead (hconst _) (.blank (scans_punct (by decide)) ?_)
    exact (spells_fields hh.1 hh.2 _).append
      (.blank (scans_punct (by decide)) (spells_entry dep rest))

/-- The statements in front, without the blank behind them. -/
def front (hoists : List Hoist) : List Char := (" ".intercalate (hoists.map Hoist.text)).toList

theorem preface_eq {hoists : List Hoist} (h : hoists ≠ []) :
    preface hoists = front hoists ++ [' '] := by
  cases hoists with
  | nil => exact absurd rfl h
  | cons a hoists => simp [preface, front]

theorem Hoist.text_eq_cons (h : Hoist) : ∃ cs, h.text.toList = 'c' :: cs := by
  cases h with
  | whole name dep =>
    change ∃ cs, ("const " ++ name ++ " = " ++ scopeEntry dep ++ ";").toList = 'c' :: cs
    simp
  | fields names dep =>
    change ∃ cs, ("const \x7b " ++ commas (names.map Field.text) ++
      (" \x7d = " ++ scopeEntry dep ++ ";")).toList = 'c' :: cs
    simp

theorem front_cons (h : Hoist) {hoists : List Hoist} (hne : hoists ≠ []) :
    front (h :: hoists) = h.text.toList ++ ' ' :: front hoists := by
  cases hoists with
  | nil => exact absurd rfl hne
  | cons h' hoists => simp [front]

theorem front_eq_cons {hoists : List Hoist} (hne : hoists ≠ []) :
    ∃ cs, front hoists = 'c' :: cs := by
  cases hoists with
  | nil => exact absurd rfl hne
  | cons h hoists =>
    obtain ⟨cs, hcs⟩ := h.text_eq_cons
    cases hoists with
    | nil => exact ⟨cs, by simpa [front] using hcs⟩
    | cons h' hoists => exact ⟨_, by rw [front_cons h (by simp), hcs, List.cons_append]⟩

theorem spells_front {hoists : List Hoist} (hne : hoists ≠ [])
    (hh : ∀ h ∈ hoists, h.readable s = true) {lead : List Char}
    (hlead : lead = [] ∨ lead = [' ']) (rest : List Char) :
    Spells (lead ++ (front hoists ++ ' ' :: rest)) (hoists.flatMap Hoist.tokens) (' ' :: rest) := by
  induction hoists generalizing lead with
  | nil => exact absurd rfl hne
  | cons h hoists ih =>
    obtain ⟨hfirst, hothers⟩ := List.forall_mem_cons.1 hh
    cases hoists with
    | nil => simpa [front] using spells_hoist hfirst hlead rest
    | cons h' hoists =>
      have htext : front (h :: h' :: hoists) ++ ' ' :: rest =
          h.text.toList ++ ' ' :: (front (h' :: hoists) ++ ' ' :: rest) := by
        simp [front_cons h]
      rw [htext, List.flatMap_cons]
      exact (spells_hoist hfirst hlead _).append (ih (by simp) hothers (Or.inr rfl))

/-! ## Reading -/

theorem readsStatement_hoist {h : Hoist} (hh : h.readable s = true) :
    ReadsStatement s (Grammar.ofDepth (k + 4)) h.tokens h.tree :=
  ⟨⟨_, _, rfl⟩, fun _ _ hreads => statement_hoist hh hreads⟩

theorem getLast?_tokens {hoists : List Hoist} (hne : hoists ≠ []) :
    (hoists.flatMap Hoist.tokens).getLast? = some (.punct ";") := by
  induction hoists with
  | nil => exact absurd rfl hne
  | cons h hoists ih =>
    rw [List.flatMap_cons, List.getLast?_append]
    cases hoists with
    | nil => simp [Hoist.tokens, List.getLast?_cons]
    | cons h' hoists =>
      rw [ih (by simp)]
      rfl

/-- Statements in front, and then what is read behind them. -/
theorem statementsUntil_constants {hoists : List Hoist} (hne : hoists ≠ []) {size : Nat}
    {before text : List Char} (hsize : before.length + (' ' :: text).length = size)
    (hspells : Spells (before ++ ' ' :: text) (hoists.flatMap Hoist.tokens) (' ' :: text))
    (hh : ∀ h ∈ hoists, h.readable (Program.setting dialect size) = true) :
    ∃ ns : List Node, ns.map Node.bare = hoists.map Hoist.tree ∧
      statementsUntil (Grammar.ofDepth (Program.depthFor size)) atEnd (Program.setting dialect size)
          (cursorAt (Program.setting dialect size) true false 0 0 (before ++ ' ' :: text) []) =
        (Program.readBehind dialect hoists.length before (' ' :: text)).map
          fun (ms, d) => (ns ++ ms, d) := by
  let s := Program.setting dialect size
  have hs : s.size = size := rfl
  -- The tokens of the statements are met first; behind the last of them stands the blank.
  have htokens : hoists.flatMap Hoist.tokens ≠ [] := by
    intro h
    have := getLast?_tokens hne
    rw [h] at this
    cases this
  obtain ⟨l, hreads, ⟨hrest, hstop⟩, hcomments, hlast⟩ : ∃ l : Cursor,
      Reads s (hoists.flatMap Hoist.tokens)
        (cursorAt s true false 0 0 (before ++ ' ' :: text) []) (l.next s) ∧
      l.Leaves s (' ' :: text) ∧ l.comments = [] ∧
        (hoists.flatMap Hoist.tokens).getLast? = some l.token :=
    hspells.reads htokens (by simp [hs, ← hsize]) (Nat.le_refl 0)
  rw [getLast?_tokens hne, Option.some.injEq] at hlast
  have hbehind : l.next s =
      cursorAt s false false before.length before.length (' ' :: text) [] := by
    have hplace : l.span.stop = before.length := by omega
    simp only [Cursor.next, ← hlast, hplace, hrest, hcomments]
    rfl
  let items := hoists.map fun h => (h.tokens, h.tree)
  have hread : ∀ i ∈ items, ReadsStatement s (Grammar.ofDepth (Program.depthFor size)) i.1 i.2 := by
    intro i hi
    obtain ⟨h, hmem, rfl⟩ := List.mem_map.1 hi
    exact readsStatement_hoist (k := 4 * size + 12) (hh h hmem)
  have hitems : items.flatMap (·.1) = hoists.flatMap Hoist.tokens := by
    simp [items, List.flatMap_map]
  rw [← hitems, hbehind] at hreads
  obtain ⟨ns, htrees, hrounds⟩ := rounds_statements (by simpa [items] using hne) hread hreads
    (size + 2 - hoists.length) true []
  refine ⟨ns, by simpa [items, Function.comp_def] using htrees, ?_⟩
  -- Each statement takes one round, and there are rounds enough for one per character.
  have hlength : items.length ≤ size := by
    have := length_le_flatMap hread
    have := hreads.length_le (by rwa [hitems])
    omega
  have hfuel : size + 2 = items.length + (size + 2 - hoists.length) := by
    simp only [items, List.length_map] at hlength ⊢
    omega
  change loop (statementStep _ atEnd) (true, []) s _ = _
  rw [loop_apply, lastStop_cursorAt, hs, Nat.sub_zero, hfuel, hrounds]
  have hsplit := rounds_statementStep (s := s) (g := Grammar.ofDepth (Program.depthFor size)) atEnd
    ns.reverse (size + 2 - hoists.length) false []
    (cursorAt s false false before.length before.length (' ' :: text) [])
  simp only [List.nil_append, List.reverse_reverse] at hsplit
  simp only [List.append_nil, Program.readBehind, hsize]
  exact hsplit

theorem strayDefaults_fields (fields : List Field) :
    Program.strayDefaults (fields.map Field.tree) = false := by
  induction fields with
  | nil => rfl
  | cons f fields ih =>
    rw [List.map_cons, Program.strayDefaults, ih, Bool.or_false]
    cases f with
    | same name => rfl
    | renamed property name =>
      rw [Field.tree, renamedTree]
      split <;> rfl

theorem strayDefault_hoist (h : Hoist) : Program.strayDefault h.tree = false := by
  cases h with
  | whole name dep => rfl
  | fields names dep =>
    have := strayDefaults_fields names
    simp [Hoist.tree, constantTree, Program.strayDefault, Program.strayDefaults, this]

theorem strayDefaults_hoists (hoists : List Hoist) :
    Program.strayDefaults (hoists.map Hoist.tree) = false := by
  induction hoists with
  | nil => rfl
  | cons h hoists ih =>
    rw [List.map_cons, Program.strayDefaults, ih, strayDefault_hoist, Bool.or_false]

theorem isSound_front {dialect : Dialect} {hoists : List Hoist} {ns ms : List Node}
    (h : ns.map Node.bare = hoists.map Hoist.tree) :
    Program.isSound dialect (ns ++ ms) = Program.isSound dialect ms := by
  refine Program.isSound_append ?_ fun n hn => ?_
  · rw [← Program.strayDefaults_bareAll, Node.bareAll_eq_map, h, strayDefaults_hoists]
  · obtain ⟨a, -, ha⟩ := List.mem_map.1 (h ▸ List.mem_map_of_mem (f := Node.bare) hn)
    rw [← Node.kind_bare, ← ha]
    rfl

/-! ## Reading linked text again -/

/-- How a parser goes on behind declarations of constants. `behind` is what it reads of a text that
stands behind such declarations and one blank, if it accepts that. -/
structure Continues (R : Reader)
    (behind : Dialect → List Hoist → List Char → List Char → Option (List Node)) : Prop where
  /-- Declarations that end with semicolons are read one by one, and then what is behind them. -/
  constants : ∀ {dialect hoists before text}, hoists ≠ [] →
    (∀ a ∈ hoists, a.readable (Program.setting dialect 0) = true) → before.head? ≠ some '#' →
    Spells (before ++ ' ' :: text) (hoists.flatMap Hoist.tokens) (' ' :: text) →
    ∃ ns : List Node, ns.map Node.bare = hoists.map Hoist.tree ∧ ∀ statements,
      (∃ q, R.read dialect (before ++ ' ' :: text) = .ok q ∧ q.statements = statements) ↔
        ∃ ms, behind dialect hoists before text = some ms ∧ statements = ns ++ ms
  /-- Directives are the first statements of a program. -/
  directive : ∀ {dialect hoists before text ms}, behind dialect hoists before text = some ms →
    ∀ m ∈ ms, m.kind ≠ .directive
  /-- The line that names an interpreter is the first one. -/
  hashbang : ∀ {dialect hoists before rest},
    behind dialect hoists before ('#' :: '!' :: rest) = none

/-- What the grammar reads behind declarations, if it passes the checks of a program. -/
def grammarBehind (dialect : Dialect) (hoists : List Hoist) (before text : List Char) :
    Option (List Node) :=
  match Program.readBehind dialect hoists.length before (' ' :: text) with
  | .ok (ms, _) => if Program.isSound dialect ms then some ms else none
  | .error _ => none

theorem grammarBehind_eq_some {hoists : List Hoist} {before text : List Char} {ms : List Node} :
    grammarBehind dialect hoists before text = some ms ↔ ∃ last,
      Program.readBehind dialect hoists.length before (' ' :: text) = .ok (ms, last) ∧
        Program.isSound dialect ms = true := by
  unfold grammarBehind
  split
  · next h => rw [h]; grind
  · next h => simp [h]

/-- Where declarations stand in front, a program is read as them and what is read behind them. -/
theorem read_constants {hoists : List Hoist} (hne : hoists ≠ [])
    (hh : ∀ a ∈ hoists, a.readable (Program.setting dialect 0) = true) {before text : List Char}
    (hfirst : before.head? ≠ some '#')
    (hspells : Spells (before ++ ' ' :: text) (hoists.flatMap Hoist.tokens) (' ' :: text)) :
    ∃ ns : List Node, ns.map Node.bare = hoists.map Hoist.tree ∧ ∀ statements,
      (∃ q, Program.read dialect (before ++ ' ' :: text) = .ok q ∧ q.statements = statements) ↔
        ∃ ms, grammarBehind dialect hoists before text = some ms ∧ statements = ns ++ ms := by
  have hsize : before.length + (' ' :: text).length = (before ++ ' ' :: text).length := by simp
  have hreadable : ∀ h ∈ hoists, h.readable
      (Program.setting dialect (before ++ ' ' :: text).length) = true := by
    intro h hmem
    cases h <;> exact hh _ hmem
  have hsplit : Program.splitHashbang (before ++ ' ' :: text) = (none, before ++ ' ' :: text) := by
    unfold Program.splitHashbang
    split
    · next heq =>
      cases before with
      | nil => simp at heq
      | cons c before =>
        obtain ⟨rfl, -⟩ := List.cons.inj heq
        exact absurd rfl hfirst
    · rfl
  obtain ⟨ns, htrees, hns⟩ := statementsUntil_constants hne hsize hspells hreadable
  refine ⟨ns, htrees, fun statements => ?_⟩
  simp only [Program.read_ok_iff hsplit, hns, grammarBehind_eq_some]
  constructor
  · rintro ⟨⟨last, hlast⟩, hsound⟩
    cases hr : Program.readBehind dialect hoists.length before (' ' :: text) with
    | error f =>
      rw [hr] at hlast
      cases hlast
    | ok r =>
      rw [hr] at hlast
      cases hlast
      exact ⟨r.1, ⟨r.2, rfl, by rwa [isSound_front htrees] at hsound⟩, rfl⟩
  · rintro ⟨ms, ⟨last, hr, hsound⟩, rfl⟩
    rw [hr, isSound_front htrees]
    exact ⟨⟨last, rfl⟩, hsound⟩

theorem own_continues : Continues .own grammarBehind where
  constants hne hh hfirst hspells := read_constants hne hh hfirst hspells
  directive h := by
    obtain ⟨last, hr, -⟩ := grammarBehind_eq_some.1 h
    exact notDirective_of_readBehind hr
  hashbang {dialect hoists before rest} := by
    obtain ⟨f, hf⟩ := @readBehind_hashbang dialect hoists.length before rest
    simp [grammarBehind, hf]

/-- A first line that names an interpreter stays in front of the statements. -/
theorem hashbang_isPrefix_woven {source : List Char} {location : String} {first : Nat}
    {statements : List Node} (hsource : ['#', '!'] <+: source)
    (hbehind : ∀ n ∈ statements, 2 ≤ n.span.start) :
    ['#', '!'] <+: woven source location 0 first statements := by
  cases statements with
  | nil => exact hsource
  | cons n ns =>
    have hslice : ['#', '!'] <+: slice source ⟨0, n.span.start⟩ :=
      List.prefix_take_iff.2 ⟨hsource, hbehind n List.mem_cons_self⟩
    rw [woven, List.append_assoc]
    exact hslice.trans (List.prefix_append _ _)

theorem kind_of_trees {hoists : List Hoist} {ns : List Node}
    (h : ns.map Node.bare = hoists.map Hoist.tree) : ∀ n ∈ ns, n.kind = .variableDecl := by
  intro n hn
  obtain ⟨a, -, ha⟩ := List.mem_map.1 (h ▸ List.mem_map_of_mem (f := Node.bare) hn)
  rw [← Node.kind_bare, ← ha]
  rfl

/-- Linked text is what stands in front, and behind it what becomes of the statements of the source
one by one. If the names in front can be read as names, a parser that goes on behind declarations
reads the text as those in front and what it reads behind them, or refuses it if it refuses that. No
directive is left of a source then, and if a first line that names an interpreter is behind the
declarations, the text is refused. -/
theorem reread_of_ofSource
    {behind : Dialect → List Hoist → List Char → List Char → Option (List Node)}
    (hR : Continues R behind) {source location : String} {options : Options} {program : Program}
    {linked : Linked} (hread : R.read dialect source.toList = .ok program)
    (hn : SpansNested program.statements source.toList.length)
    (hplain : ∀ n ∈ program.statements, Plain n)
    (h : ofSource R source location dialect options = .ok linked) :
    ∃ p, plan R dialect program source.toList location options = .ok p ∧ linked.report = p.report ∧
      linked.code.toList = preface p.hoists ++
        woven source.toList location 0 0 program.statements ∧
      (p.hoists ≠ [] → (∀ a ∈ p.hoists, a.readable (Program.setting dialect 0) = true) →
        (∃ ns : List Node, ns.map Node.bare = p.hoists.map Hoist.tree ∧ ∀ statements,
          (∃ q, R.read dialect linked.code.toList = .ok q ∧ q.statements = statements) ↔
            ∃ ms, behind dialect p.hoists (front p.hoists)
                (woven source.toList location 0 0 program.statements) = some ms ∧
              statements = ns ++ ms) ∧
        (∀ q, R.read dialect linked.code.toList = .ok q →
          ∀ n ∈ q.statements, n.kind ≠ .directive) ∧
        (['#', '!'] <+: woven source.toList location 0 0 program.statements →
          ∀ q, R.read dialect linked.code.toList ≠ .ok q)) := by
  obtain ⟨p, hp, hreport, hcode⟩ := code_of_ofSource hread hn hplain h
  refine ⟨p, hp, hreport, hcode, fun hne hreadable => ?_⟩
  have htext : linked.code.toList = front p.hoists ++ ' ' ::
      woven source.toList location 0 0 program.statements := by
    simp [hcode, preface_eq hne]
  have hfirst : (front p.hoists).head? ≠ some '#' := by
    obtain ⟨cs, hcs⟩ := front_eq_cons hne
    simp [hcs]
  have hspells := spells_front hne hreadable (Or.inl rfl)
    (woven source.toList location 0 0 program.statements)
  obtain ⟨ns, htrees, hiff⟩ := hR.constants hne hreadable hfirst hspells
  rw [← htext] at hiff
  refine ⟨⟨ns, htrees, hiff⟩, fun q hq n hmem => ?_, ?_⟩
  · obtain ⟨ms, hms, hstatements⟩ := (hiff q.statements).1 ⟨q, hq, rfl⟩
    rw [hstatements] at hmem
    rcases List.mem_append.1 hmem with hmem | hmem
    · rw [kind_of_trees htrees n hmem]
      decide
    · exact hR.directive hms n hmem
  · rintro ⟨rest, hhashbang⟩ q hq
    obtain ⟨ms, hms, -⟩ := (hiff q.statements).1 ⟨q, hq, rfl⟩
    rw [← hhashbang] at hms
    cases hR.hashbang.symm.trans hms

/-- Linking returns where no call stands inside of the options of another one. -/
theorem returns_of_plan {source location : String} {options : Options} {program : Program}
    {p : Plan} (hread : R.read dialect source.toList = .ok program)
    (hn : SpansNested program.statements source.toList.length)
    (hplain : ∀ n ∈ program.statements, Plain n)
    (hp : plan R dialect program source.toList location options = .ok p)
    (hcalls : callInOptionsAny program.statements = false) :
    ∃ linked, ofSource R source location dialect options = .ok linked := by
  have happart := (apart_edits_iff hplain hn hp).2 hcalls
  exact (ofSource_of_plan hread hp).1.2 ((splice_ok_iff (fits_of_plan hn hp)).2 happart)

/-- What can be evaluated of a source shows that linking it returns. -/
theorem links_of_check {source location : String} {options : Options}
    {check : Program → Plan → Bool}
    (h : (Reader.own.read dialect source.toList).toOption.any (fun program =>
      decide (SpansNested program.statements source.toList.length) &&
        decide ((sitesAll program.statements).Pairwise fun s t => s.span.start ≤ t.span.start) &&
        (declarations source.toList location (retains .own dialect program options)
          { report := { isModule := program.statements.any isModuleSyntax } }
          program.statements).toOption.any fun q =>
            (addSites location q (sitesAll program.statements)).toOption.any
              fun p => !(callInOptionsAny program.statements) && check program p) = true) :
    ∃ program p linked, Reader.own.read dialect source.toList = .ok program ∧
      SpansNested program.statements source.toList.length ∧
      (∀ n ∈ program.statements, Plain n) ∧
      plan .own dialect program source.toList location options = .ok p ∧
      ofSource .own source location dialect options = .ok linked ∧ check program p = true := by
  obtain ⟨program, p, hread, hnested, hp, hcheck⟩ := planned_of_check h
  have hplain : ∀ n ∈ program.statements, Plain n := by
    rw [Reader.own_read] at hread
    exact plain_of_read hread
  rw [Bool.and_eq_true, Bool.not_eq_true'] at hcheck
  obtain ⟨linked, hlinked⟩ := returns_of_plan hread hnested hplain hp hcheck.1
  exact ⟨program, p, linked, hread, hnested, hplain, hp, hlinked, hcheck.2⟩

/-- A script with a first line that names an interpreter. -/
def interpreted : String := "#!/usr/bin/env node\nimport \x7b b \x7d from './b';\nconsole.log(b);\n"

theorem interpreted_is_not_read_again :
    ∃ program linked, Reader.own.read (Dialect.ofLocation "/a.ts".toList) interpreted.toList =
        .ok program ∧
      SpansNested program.statements interpreted.toList.length ∧
      (∀ n ∈ program.statements, Plain n) ∧
      ofSource .own interpreted "/a.ts" (Dialect.ofLocation "/a.ts".toList) {} = .ok linked ∧
      ∀ q, Reader.own.read (Dialect.ofLocation "/a.ts".toList) linked.code.toList ≠ .ok q := by
  obtain ⟨program, p, linked, hread, hnested, hplain, hp, hlinked, hcheck⟩ :=
    @links_of_check (Dialect.ofLocation "/a.ts".toList) interpreted "/a.ts" {}
      (fun program p => decide (∀ n ∈ program.statements, 2 ≤ n.span.start) && !p.hoists.isEmpty &&
        p.hoists.all (Hoist.readable (Program.setting (Dialect.ofLocation "/a.ts".toList) 0)))
      (by decide +kernel)
  simp only [Bool.and_eq_true, decide_eq_true_eq, Bool.not_eq_true', List.isEmpty_eq_false_iff,
    List.all_eq_true] at hcheck
  obtain ⟨⟨hbehind, hne⟩, hreadable⟩ := hcheck
  obtain ⟨p', hp', -, -, hreread⟩ :=
    reread_of_ofSource own_continues hread hnested hplain hlinked
  cases hp.symm.trans hp'
  refine ⟨program, linked, hread, hnested, hplain, hlinked, (hreread hne hreadable).2.2 ?_⟩
  exact hashbang_isPrefix_woven (by decide) hbehind

end ScriptLoader.Compile.Linked
