import ScriptLoader.Proofs.Syntax.Spelled
import ScriptLoader.Proofs.Syntax.Yields

/-!
# Names are spelled as names

What is scanned as a name consists of the characters of names, escapes included, and so does every
variable that an import list declares.

* `Token.sound_scan`: a token that is scanned as a name is spelled as one.
* `Parser.Keeps`, `Parser.Reaches`: what holds of the results of a parser that stays at such tokens,
  with a rule for each way to put parsers together.
* `Grammar.named_importClause`: the variables of an import list are spelled as names.
-/

namespace ScriptLoader.Syntax

/-! ## Scanning -/

theorem isNameText_concat {cs : List Char} {c : Char} (h : isNameText cs = true)
    (hc : isNamePart c = true) : isNameText (cs ++ [c]) = true := by
  cases cs with
  | nil => cases h
  | cons d cs =>
    simp only [isNameText, Bool.and_eq_true] at h
    simp [isNameText, h.1, h.2, hc]

/-- What is read so far of a name: nothing, or a name. -/
def BeginsName (acc : List Char) : Prop := acc = [] ∨ isNameText acc.reverse = true

theorem beginsName_cons {acc : List Char} {c : Char} (h : BeginsName acc)
    (hc : (if acc.isEmpty then isNameStart c else isNamePart c) = true) :
    BeginsName (c :: acc) := by
  right
  rcases h with rfl | h
  · simpa [isNameText] using hc
  · cases acc with
    | nil => cases h
    | cons d acc =>
      rw [List.reverse_cons]
      exact isNameText_concat h hc

theorem beginsName_of_nameBody? {fuel : Nat} {acc cs name rest : List Char} {escaped e : Bool}
    (hacc : BeginsName acc) (h : nameBody? fuel acc escaped cs = some (name, e, rest)) :
    BeginsName name.reverse := by
  fun_induction nameBody? fuel acc escaped cs with
  | case1 => cases h
  | case2 =>
    cases h
    rwa [List.reverse_reverse]
  | case3 fuel acc escaped cs n rest' hescape d hd ih => exact ih (beginsName_cons hacc hd) h
  | case4 => cases h
  | case5 => cases h
  | case6 => cases h
  | case7 fuel acc escaped c cs hne hc ih => exact ih (beginsName_cons hacc hc) h
  | case8 =>
    cases h
    rwa [List.reverse_reverse]

theorem isNameText_of_scanName {fuel : Nat} {cs rest : List Char} {name : String} {e : Bool}
    (h : scanName fuel cs = some (name, e, rest)) : isNameText name.toList = true := by
  unfold scanName at h
  split at h
  · next body escaped after hbody =>
    split at h
    · cases h
    · next hne =>
      cases h
      rw [String.toList_ofList]
      rcases beginsName_of_nameBody? (Or.inl rfl) hbody with hnil | hname
      · simp_all
      · rwa [List.reverse_reverse] at hname
  · cases h

/-- If the token is a name, it is spelled as one. -/
def Token.Sound : Token → Prop
  | .name w _ => isNameText w.toList = true
  | _ => True

theorem sound_scanQuasi (fuel : Nat) (cs : List Char) : (scanQuasi fuel cs).1.Sound := by
  unfold scanQuasi
  split <;> trivial

theorem sound_scanBased (isDigit : Char → Bool) (mark cs : List Char) :
    (scanBased isDigit mark cs).1.Sound := by
  unfold scanBased
  repeat' first
    | trivial
    | split

theorem sound_getD {answer : Option (Token × List Char)} (h : ∀ r ∈ answer, r.1.Sound) :
    (answer.getD (.invalid, [])).1.Sound := by
  cases answer with
  | none => trivial
  | some r => exact h r rfl

theorem sound_scanDecimal (cs : List Char) : (scanDecimal cs).1.Sound := by
  refine sound_getD fun r hr => ?_
  simp only [Option.mem_def, Option.bind_eq_bind, Option.bind_eq_some_iff] at hr
  obtain ⟨⟨whole, rest⟩, -, hr⟩ := hr
  dsimp only at hr
  split at hr
  · split at hr
    · cases hr
    · cases hr
      trivial
  · simp only [Option.bind_eq_some_iff] at hr
    obtain ⟨_, -, _, -, hr⟩ := hr
    cases hr
    trivial
  · simp only [Option.bind_eq_some_iff] at hr
    obtain ⟨_, -, hr⟩ := hr
    cases hr
    trivial

theorem sound_scanNumber (cs : List Char) : (scanNumber cs).1.Sound := by
  have hof : ∀ {r : Token × List Char} {token rest}, r = (token, rest) → r.1.Sound →
      token.Sound := by
    rintro _ _ _ rfl h
    exact h
  unfold scanNumber
  split
  next token rest hscan =>
    have htoken : token.Sound := by
      refine hof hscan ?_
      repeat' first
        | trivial
        | exact sound_scanBased _ _ _
        | exact sound_scanDecimal _
        | split
        | dsimp only
    split
    · split
      · trivial
      · exact htoken
    · exact htoken

theorem sound_scanPunct (cs : List Char) : (scanPunct cs).1.Sound := by
  unfold scanPunct
  repeat' first
    | trivial
    | split

/-- A token that is scanned as a name is spelled as one. -/
theorem Token.sound_scan (fuel : Nat) (cs : List Char) : (Token.scan fuel cs).1.Sound := by
  unfold Token.scan
  split
  · trivial
  · split
    · split
      · next hscan => exact isNameText_of_scanName hscan
      · trivial
    · split
      · exact sound_scanNumber _
      · split
        · split <;> trivial
        · split
          · exact sound_scanQuasi _ _
          · split
            · split <;> trivial
            · exact sound_scanPunct _

/-! ## Parsers -/

/-- The cursor is on a token that is spelled soundly. -/
def Cursor.Sound (c : Cursor) : Prop := c.token.Sound

theorem sound_cursorAt (s : Setting) (first holds : Bool) (lastStop offset : Nat)
    (rest : List Char) (comments : List Comment) :
    (Parser.cursorAt s first holds lastStop offset rest comments).Sound := by
  unfold Parser.cursorAt
  dsimp only
  split
  · trivial
  · exact Token.sound_scan _ _

namespace Parser

variable {α β : Type} {P : α → Prop} {Q : β → Prop}

/-- From a sound cursor the parser goes to a sound one, and its results satisfy `P`. -/
def Keeps (p : Parser α) (P : α → Prop) : Prop :=
  ∀ s c a d, c.Sound → p s c = .ok (a, d) → P a ∧ d.Sound

namespace Keeps

theorem bind {p : Parser α} {f : α → Parser β} (hp : p.Keeps P) (hf : ∀ a, P a → (f a).Keeps Q) :
    (p >>= f).Keeps Q := by
  intro s c b e hc h
  change andThen p f s c = .ok (b, e) at h
  unfold andThen at h
  split at h
  · next a d ha =>
    obtain ⟨hresult, hd⟩ := hp s c a d hc ha
    exact hf a hresult s d b e hd h
  · cases h

theorem pure {a : α} (h : P a) : (Pure.pure a : Parser α).Keeps P := by
  rintro s c _ d hc ⟨⟩
  exact ⟨h, hc⟩

theorem refuse {reason : String} : (Parser.refuse reason : Parser α).Keeps P := by
  rintro s c a d - ⟨⟩

theorem mono {P' : α → Prop} {p : Parser α} (hp : p.Keeps P) (h : ∀ a, P a → P' a) :
    p.Keeps P' := fun s c a d hc hr => ⟨h a (hp s c a d hc hr).1, (hp s c a d hc hr).2⟩

/-- A parser that does not move. -/
theorem still {p : Parser α} (h : ∀ s c a d, p s c = .ok (a, d) → d = c) :
    p.Keeps fun _ => True :=
  fun s c a d hc hr => ⟨trivial, h s c a d hr ▸ hc⟩

theorem cursor : Parser.cursor.Keeps Cursor.Sound := by
  rintro s c _ _ hc ⟨⟩
  exact ⟨hc, hc⟩

theorem advance : Parser.advance.Keeps fun _ => True := by
  rintro s c _ _ - ⟨⟩
  exact ⟨trivial, sound_cursorAt _ _ _ _ _ _ _⟩

theorem ahead (p : Parser α) : (Parser.ahead p).Keeps fun _ => True :=
  still fun s c a d h => by
    unfold Parser.ahead at h
    split at h
    · cases h
      rfl
    · cases h

theorem finish {start : Nat} {kind : Kind} {cs : List Node} {text : String} {marks : List Mark}
    {P : Node → Prop} (h : ∀ span, P (.mk kind marks text span cs)) :
    (Parser.finish start kind cs text marks).Keeps P := by
  rintro s c _ d hc ⟨⟩
  exact ⟨h _, hc⟩

theorem seq {p : Parser α} {f : α → Parser β} (hp : p.Keeps fun _ => True)
    (hf : ∀ a, (f a).Keeps Q) : (p >>= f).Keeps Q := hp.bind fun a _ => hf a

theorem setting : Parser.setting.Keeps fun _ => True := still <| by rintro s c _ _ ⟨⟩; rfl

theorem position : Parser.position.Keeps fun _ => True := still <| by rintro s c _ _ ⟨⟩; rfl

theorem atPunct (p : String) : (Parser.atPunct p).Keeps fun _ => True :=
  still <| by rintro s c _ _ ⟨⟩; rfl

theorem atWord (w : String) : (Parser.atWord w).Keeps fun _ => True :=
  still <| by rintro s c _ _ ⟨⟩; rfl

theorem skip (p : String) : (Parser.skip p).Keeps fun _ => True := by
  refine (atPunct p).seq fun found => ?_
  split
  · exact advance.seq fun _ => pure trivial
  · exact pure trivial

theorem skipWord (w : String) : (Parser.skipWord w).Keeps fun _ => True := by
  refine (atWord w).seq fun found => ?_
  split
  · exact advance.seq fun _ => pure trivial
  · exact pure trivial

theorem expect (p : String) : (Parser.expect p).Keeps fun _ => True := by
  refine (skip p).seq fun found => ?_
  split
  · exact pure trivial
  · exact refuse

theorem expectWord (w : String) : (Parser.expectWord w).Keeps fun _ => True := by
  refine (skipWord w).seq fun found => ?_
  split
  · exact pure trivial
  · exact refuse

theorem leaf {kind : Kind} {text : String} {marks : List Mark} {P : Node → Prop}
    (h : ∀ span, P (.mk kind marks text span [])) : (Parser.leaf kind text marks).Keeps P :=
  position.seq fun _ => advance.seq fun _ => finish h

/-- What every round keeps holds of the last one. -/
theorem loop {step : α → Parser (α ⊕ β)} {a : α} (ha : P a)
    (hstep : ∀ a, P a → (step a).Keeps (Sum.elim P Q)) : (Parser.loop step a).Keeps Q := by
  have hrounds : ∀ fuel a, P a → (rounds step fuel a).Keeps Q := by
    intro fuel
    induction fuel with
    | zero => exact fun _ _ => refuse
    | succ fuel ih =>
      intro a ha
      refine (hstep a ha).bind fun next hnext => ?_
      cases next with
      | inl a => exact ih a hnext
      | inr b => exact pure hnext
  exact fun s c => hrounds _ a ha s c

theorem commaUntil {close : String} {item : Parser α} (h : item.Keeps P) :
    (Parser.commaUntil close item).Keeps fun items => ∀ a ∈ items, P a := by
  refine loop (P := fun items => ∀ a ∈ items, P a) (by simp) fun acc hacc => ?_
  refine (skip close).seq fun _ => ?_
  split
  · exact pure fun a ha => hacc a (List.mem_reverse.1 ha)
  · refine h.bind fun a ha => (skip close).seq fun _ => ?_
    have hcons : ∀ b ∈ a :: acc, P b := List.forall_mem_cons.2 ⟨ha, hacc⟩
    split
    · exact pure fun b hb => hcons b (List.mem_reverse.1 hb)
    · exact (expect ",").seq fun _ => pure hcons

end Keeps

/-- From a sound cursor, every result of the parser satisfies `P`. -/
def Reaches (p : Parser α) (P : α → Prop) : Prop :=
  ∀ s c a d, c.Sound → p s c = .ok (a, d) → P a

theorem Yields.reaches {p : Parser α} (h : p.Yields P) : p.Reaches P :=
  fun s c a d _ hr => h s c a d hr

theorem Keeps.reaches {p : Parser α} {f : α → Parser β} (hp : p.Keeps P)
    (hf : ∀ a, P a → (f a).Reaches Q) : (p >>= f).Reaches Q := by
  intro s c b e hc h
  change andThen p f s c = .ok (b, e) at h
  unfold andThen at h
  split at h
  · next a d ha =>
    obtain ⟨hresult, hd⟩ := hp s c a d hc ha
    exact hf a hresult s d b e hd h
  · cases h

theorem Keeps.reached {p : Parser α} (h : p.Keeps P) : p.Reaches P :=
  fun s c a d hc hr => (h s c a d hc hr).1

theorem Reaches.bind {p : Parser α} {f : α → Parser β} (hp : p.Reaches P)
    (hf : ∀ a, P a → (f a).Yields Q) : (p >>= f).Reaches Q := by
  intro s c b e hc h
  change andThen p f s c = .ok (b, e) at h
  unfold andThen at h
  split at h
  · next a d ha => exact hf a (hp s c a d hc ha) s d b e h
  · cases h

/-- Behind a word every cursor is sound. -/
theorem Yields.behindWord {w : String} {f : Unit → Parser β} (hf : ∀ u, (f u).Reaches Q) :
    (Parser.expectWord w >>= f).Yields Q := by
  intro s c b e h
  change andThen (Parser.expectWord w) f s c = .ok (b, e) at h
  unfold andThen at h
  split at h
  · next u d hword =>
    have hnext : d = c.next s := by
      obtain ⟨found, hfound⟩ : ∃ found, atWord w s c = .ok (found, c) := ⟨_, rfl⟩
      simp only [expectWord, skipWord, bind_apply, hfound] at hword
      cases found with
      | true =>
        cases hword
        rfl
      | false => cases hword
    refine hf u s d b e ?_ h
    rw [hnext]
    exact sound_cursorAt _ _ _ _ _ _ _
  · cases h

end Parser

/-! ## Import lists -/

namespace Grammar

open Syntax.Parser

/-- A word is spelled as a name. -/
def NamedWord (n : Node) : Prop := n.is .word = true → isNameText n.text.toList = true

/-- The variable that an item of an import list declares is spelled as a name. -/
def NamedItem (i : Node) : Prop := ∀ b ∈ i.children.getLast?, isNameText b.text.toList = true

theorem named_variable (kind : Kind) :
    (variable_ kind).Keeps fun n => isNameText n.text.toList = true := by
  refine Keeps.cursor.bind fun c hc => ?_
  split
  · next w escaped hw =>
    have hname : isNameText w.toList = true := by
      rwa [Cursor.Sound, hw] at hc
    refine Keeps.setting.seq fun s => ?_
    split
    · exact .leaf fun _ => hname
    · exact .refuse
  · exact .refuse

theorem named_word : word.Keeps NamedWord := by
  refine Keeps.cursor.bind fun c hc => ?_
  split
  · next w escaped hw =>
    have hname : isNameText w.toList = true := by
      rwa [Cursor.Sound, hw] at hc
    exact .leaf fun _ _ => hname
  · exact .refuse

theorem named_stringLiteral : stringLiteral.Keeps fun n => n.is .word = false := by
  refine Keeps.cursor.bind fun c _ => ?_
  split
  · exact .leaf fun _ => rfl
  · exact .refuse

theorem named_exportName : exportName_.Keeps NamedWord := by
  refine Keeps.cursor.bind fun c _ => ?_
  split
  · refine named_stringLiteral.bind fun n hn => .pure fun hword => ?_
    cases n
    exact (Bool.false_ne_true (hn.symm.trans hword)).elim
  · exact named_word

theorem named_specifier : specifier.Keeps fun x => NamedWord x.2.2 := by
  refine named_exportName.bind fun first hfirst => Keeps.cursor.bind fun c _ => ?_
  split
  · refine named_word.bind fun second hsecond => Keeps.cursor.bind fun c _ => ?_
    split
    · refine named_word.bind fun third hthird => Keeps.cursor.bind fun c _ => ?_
      split
      · exact named_exportName.bind fun last hlast => .pure hlast
      · exact .pure hthird
    · split
      · exact named_exportName.bind fun last hlast => .pure hlast
      · exact .pure hsecond
  · have hrest : ∀ typeOnly name, NamedWord name →
        (do if ← skipWord "as" then return (typeOnly, name, ← exportName_)
            else return (typeOnly, name, name)).Keeps
          fun x : Bool × Node × Node => NamedWord x.2.2 := by
      refine fun typeOnly name hname => (Keeps.skipWord "as").seq fun found => ?_
      split
      · exact named_exportName.bind fun last hlast => .pure hlast
      · exact .pure hname
    dsimp only
    split
    · exact named_exportName.bind fun name hname => hrest _ name hname
    · exact Keeps.bind (.pure hfirst) fun name hname => hrest _ name hname

theorem named_importItem : importItem.Keeps NamedItem := by
  refine Keeps.position.seq fun start => named_specifier.bind fun ⟨typeOnly, imported, local_⟩ hx =>
    Keeps.setting.seq fun s => ?_
  have hitem : declarable s local_ = true → ∀ span marks, NamedItem (.mk .importName marks "" span
      [imported, .mk .binding [] local_.text local_.span []]) := by
    intro hdeclarable span marks b hb
    cases hb
    simp only [declarable, Bool.and_eq_true] at hdeclarable
    exact hx hdeclarable.1
  dsimp only
  cases hdeclarable : declarable s local_ with
  | true =>
    repeat' first
      | exact .finish fun span => hitem hdeclarable span _
      | refine Keeps.refuse.seq fun _ => ?_
      | split
  | false =>
    -- Nothing is read behind the refusal.
    have hrefused : ∀ f : Unit → Parser Node,
        (Parser.refuse "expected the name of a variable" >>= f).Keeps NamedItem :=
      fun f => Keeps.bind (P := fun _ => False) .refuse fun _ hfalse => hfalse.elim
    simp only [Bool.not_false, if_true]
    split
    · exact Keeps.refuse.seq fun _ => hrefused _
    · exact hrefused _

theorem keeps_next : next.Keeps fun _ => True := .ahead _

theorem keeps_atVariable : atVariable.Keeps fun _ => True := .still <| by rintro s c _ _ ⟨⟩; rfl

theorem keeps_atTypeWord : atTypeWord.Keeps fun _ => True := by
  refine Keeps.setting.seq fun s => ?_
  repeat' first
    | exact .pure trivial
    | refine (Keeps.atWord _).seq fun _ => ?_
    | refine keeps_next.seq fun _ => ?_
    | refine (Keeps.ahead _).seq fun _ => ?_
    | split

theorem keeps_phaseAt : phaseAt.Keeps fun _ => True := by
  refine Keeps.seq (Keeps.cursor.mono fun _ _ => trivial) fun c => keeps_next.seq fun n => ?_
  repeat' first
    | exact .pure trivial
    | refine (Keeps.ahead _).seq fun _ => ?_
    | split

theorem named_importClause : importClause.Keeps fun items => ∀ i ∈ items, NamedItem i := by
  have hnamed : (do
      let start ← position
      if ← skip "*" then
        expectWord "as"
        let b ← variable_ .binding
        Parser.finish start .importNamespace [b]
      else
        expect "\x7b"
        let items ← commaUntil "\x7d" importItem
        Parser.finish start .names items : Parser Node).Keeps
        fun n => ∀ i ∈ if n.is .names then n.children else [n], NamedItem i := by
    refine Keeps.position.seq fun start => (Keeps.skip "*").seq fun found => ?_
    split
    · refine (Keeps.expectWord "as").seq fun _ => (named_variable .binding).bind fun b hb =>
        .finish fun span => ?_
      simpa [Node.is, Node.kind, NamedItem, Node.children] using hb
    · refine (Keeps.expect "\x7b").seq fun _ => (Keeps.commaUntil named_importItem).bind
        fun items hitems => .finish fun span => ?_
      simpa [Node.is, Node.kind, Node.children] using hitems
  refine Keeps.cursor.bind fun c _ => ?_
  split
  · exact hnamed.bind fun n hn => .pure hn
  · refine Keeps.position.seq fun start => (named_variable .binding).bind fun b hb => ?_
    refine Keeps.bind (P := NamedItem) (.finish fun span => ?_) fun d hd =>
      (Keeps.skip ",").seq fun found => ?_
    · simpa [NamedItem, Node.children] using hb
    · split
      · exact hnamed.bind fun n hn => .pure (List.forall_mem_cons.2 ⟨hd, hn⟩)
      · exact .pure (by simpa using hd)

end Grammar

end ScriptLoader.Syntax
