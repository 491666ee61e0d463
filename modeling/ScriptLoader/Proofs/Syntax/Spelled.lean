import Mathlib.Data.List.Forall2
import Mathlib.Tactic.ByContra
import Mathlib.Tactic.SplitIfs
import ScriptLoader.Syntax.Grammar.Basic
import ScriptLoader.Syntax.Token
import ScriptLoader.Text.Quoted

/-!
# Texts that spell tokens

A name, a punctuator and a quoted string are scanned as what they are, whatever stands behind them,
as long as it does not go on with them.

* `isNameText`: the texts that are scanned as one name (`scans_name`).
* `scans_punct`: a character that is scanned as a punctuator alone.
* `IsQuoted`: a text is a string in double quotes (`isQuoted_jsonQuoted`), and is scanned as it
  (`scans_isQuoted`).

A cursor in front of a text that spells tokens meets these tokens one after the other, and then what
stands behind them.

* `Spells`: a text is read as tokens, with one blank between them at most.
* `Reads`: a cursor meets tokens on the way to another one.
* `Spells.reads`: where a text spells tokens they are met.
-/

namespace ScriptLoader.Syntax

/-! ## One token -/

/-- Whether a token begins at a character: no blank does, and no comment. -/
def beginsToken (c : Char) : Bool :=
  !isLineEnd c && !isSpace c && !(['/', '<', '-'].contains c)

/-- The code points that no token begins with, because a blank or a comment does. -/
def blankPoints : List Nat :=
  [0x20, 0x09, 0x0B, 0x0C, 0xA0, 0xFEFF, 0x1680, 0x2000, 0x2001, 0x2002, 0x2003, 0x2004, 0x2005,
    0x2006, 0x2007, 0x2008, 0x2009, 0x200A, 0x202F, 0x205F, 0x3000, 0x0A, 0x0D, 0x2028, 0x2029,
    0x2F, 0x3C, 0x2D]

theorem toNat_mem_blankPoints {c : Char} (h : beginsToken c = false) : c.toNat ∈ blankPoints := by
  simp only [beginsToken, isLineEnd, isSpace, List.contains_cons, List.contains_nil,
    Bool.and_eq_false_iff, Bool.not_eq_false', Bool.or_eq_true, decide_eq_true_eq, beq_iff_eq,
    Bool.and_eq_true, Bool.or_false, or_assoc] at h
  rcases h with rfl | rfl | h | h | rfl | rfl | h | h | h | h | h | h | h | h | h | rfl | rfl | rfl
  case inr.inr.inr.inr.inr.inr.inr.inr.inr.inr.inr.inl =>
    simp only [blankPoints, List.mem_cons]
    omega
  all_goals first
    | decide
    | simp [blankPoints, h]

/-- A text begins with a token, and with nothing in front of it. -/
structure Scans (text : List Char) (t : Token) (after : List Char) : Prop where
  begins : ∃ c rest, text = c :: rest ∧ beginsToken c = true
  shorter : after.length < text.length
  scan : ∀ fuel, text.length < fuel → Token.scan fuel text = (t, after)

/-! ## Names -/

/-- Whether a text is a name as it is written. -/
def isNameText : List Char → Bool
  | [] => false
  | c :: cs => isNameStart c && cs.all isNamePart

/-- Whether a name ends before a character. -/
def endsName (c : Char) : Bool := !isNamePart c && c ≠ '\\'

theorem ne_backslash_of_isNamePart {c : Char} (h : isNamePart c = true) : c ≠ '\\' := by
  rintro rfl
  revert h
  decide

theorem ne_backslash_of_isNameStart {c : Char} (h : isNameStart c = true) : c ≠ '\\' := by
  rintro rfl
  revert h
  decide

theorem beginsToken_of_isNameStart {c : Char} (h : isNameStart c = true) :
    beginsToken c = true := by
  have hnone : ∀ n ∈ blankPoints, isNameStart (Char.ofNat n) = false := by decide +kernel
  by_contra hc
  have := hnone _ (toNat_mem_blankPoints (eq_false_of_ne_true hc))
  rw [Char.ofNat_toNat, h] at this
  cases this

/-- A name goes on up to a character that is not part of it. -/
theorem nameBody?_append {cs acc rest : List Char} {d : Char} {fuel : Nat} (hacc : acc ≠ [])
    (hcs : cs.all isNamePart = true) (hd : endsName d = true) (hfuel : cs.length < fuel) :
    nameBody? fuel acc false (cs ++ d :: rest) = some (acc.reverse ++ cs, false, d :: rest) := by
  have hempty : acc.isEmpty = false := List.isEmpty_eq_false_iff.2 hacc
  simp only [endsName, Bool.and_eq_true, Bool.not_eq_true', decide_eq_true_eq] at hd
  obtain ⟨fuel, rfl⟩ := Nat.exists_eq_succ_of_ne_zero (Nat.ne_of_gt (Nat.zero_lt_of_lt hfuel))
  induction cs generalizing acc fuel with
  | nil => simp [nameBody?, hempty, hd.1, hd.2]
  | cons c cs ih =>
    simp only [List.all_cons, Bool.and_eq_true] at hcs
    have hfuel : cs.length < fuel := by simpa using hfuel
    obtain ⟨fuel, rfl⟩ := Nat.exists_eq_succ_of_ne_zero (Nat.ne_of_gt (Nat.zero_lt_of_lt hfuel))
    have hrest := @ih (c :: acc) (by simp) hcs.2 rfl fuel hfuel
    simp only [List.cons_append, nameBody?, ne_backslash_of_isNamePart hcs.1, hempty, hcs.1,
      if_false, if_true, Bool.false_eq_true]
    simpa [nameBody?] using hrest

theorem scans_name {name rest : List Char} {d : Char} (hname : isNameText name = true)
    (hd : endsName d = true) :
    Scans (name ++ d :: rest) (.name (String.ofList name) false) (d :: rest) := by
  cases name with
  | nil => cases hname
  | cons c cs =>
    simp only [isNameText, Bool.and_eq_true] at hname
    have hc := ne_backslash_of_isNameStart hname.1
    refine ⟨⟨c, _, rfl, beginsToken_of_isNameStart hname.1⟩, ?_, fun fuel hfuel => ?_⟩
    · simp only [List.length_append, List.length_cons]
      omega
    · rw [List.length_append, List.length_cons] at hfuel
      obtain ⟨fuel, rfl⟩ := Nat.exists_eq_succ_of_ne_zero (Nat.ne_of_gt (Nat.zero_lt_of_lt hfuel))
      have hbody : nameBody? fuel [c] false (cs ++ d :: rest) =
          some (c :: cs, false, d :: rest) :=
        nameBody?_append (by simp) hname.2 hd (by omega)
      simp [Token.scan, scanName, nameBody?, hname.1, hc, hbody]

/-! ## Punctuators -/

/-- A character alone is a punctuator before another one. -/
def pairsApart : List (Char × Char) :=
  [('\x7b', ' '), ('\x7d', ' '), (':', ' '), (',', ' '), ('=', ' '), ('[', '"'), (']', ';'),
    (';', ' ')]

theorem longPuncts_eq :
    longPuncts = [['.', '.', '.'], ['=', '=', '='], ['!', '=', '='], ['*', '*', '='],
      ['<', '<', '='], ['&', '&', '='], ['|', '|', '='], ['?', '?', '='], ['=', '>'], ['=', '='],
      ['!', '='], ['<', '='], ['&', '&'], ['|', '|'], ['?', '?'], ['?', '.'], ['+', '+'],
      ['-', '-'], ['+', '='], ['-', '='], ['*', '='], ['/', '='], ['%', '='], ['&', '='],
      ['|', '='], ['^', '='], ['<', '<'], ['*', '*']] := by decide +kernel

theorem scans_punct {c d : Char} {rest : List Char} (h : (c, d) ∈ pairsApart) :
    Scans (c :: d :: rest) (.punct (String.singleton c)) (d :: rest) := by
  have hbegins : ∀ p ∈ pairsApart, beginsToken p.1 = true := by decide
  have hplain : ∀ p ∈ pairsApart, isNameStart p.1 = false ∧ Text.isAsciiDigit p.1 = false := by
    decide
  refine ⟨⟨c, _, rfl, hbegins _ h⟩, by simp, fun fuel hfuel => ?_⟩
  obtain ⟨hname, hdigit⟩ := hplain _ h
  simp only [pairsApart, List.mem_cons, Prod.mk.injEq, List.not_mem_nil, or_false] at h
  rcases h with ⟨rfl, rfl⟩ | ⟨rfl, rfl⟩ | ⟨rfl, rfl⟩ | ⟨rfl, rfl⟩ | ⟨rfl, rfl⟩ | ⟨rfl, rfl⟩ |
    ⟨rfl, rfl⟩ | ⟨rfl, rfl⟩ <;>
  · simp [Token.scan, scanPunct, longPuncts_eq, firstFront?, onePuncts, hname, hdigit]

/-- A bracket or comma is a punctuator whatever stands behind it. -/
theorem scans_alone {c : Char} (hc : c ∈ ['(', ')', ',']) (rest : List Char) :
    Scans (c :: rest) (.punct (String.singleton c)) rest := by
  simp only [List.mem_cons, List.not_mem_nil, or_false] at hc
  obtain ⟨hbegins, hname, hdigit⟩ : beginsToken c = true ∧ isNameStart c = false ∧
      Text.isAsciiDigit c = false := by
    rcases hc with rfl | rfl | rfl <;> decide
  refine ⟨⟨c, _, rfl, hbegins⟩, by simp, fun fuel _ => ?_⟩
  rcases hc with rfl | rfl | rfl <;>
    simp [Token.scan, scanPunct, longPuncts_eq, firstFront?, onePuncts, hname, hdigit]

/-- The mark in front of the first line of a script is a punctuator elsewhere. -/
theorem scans_hashbang (rest : List Char) :
    Scans ('#' :: '!' :: rest) (.punct "#") ('!' :: rest) := by
  refine ⟨⟨'#', _, rfl, by decide⟩, by simp, fun fuel hfuel => ?_⟩
  obtain ⟨fuel, rfl⟩ := Nat.exists_eq_succ_of_ne_zero (Nat.ne_of_gt (Nat.zero_lt_of_lt hfuel))
  have hhash : isNameStart '#' = false ∧ Text.isAsciiDigit '#' = false := by decide
  have hbang : isNameStart '!' = false := by decide
  simp [Token.scan, scanName, nameBody?, hhash, hbang]

/-! ## Quoted strings -/

/-- The digits of a code point in a quoted string. -/
def lowerDigits : List Char := "0123456789abcdef".toList

/-- A text between quotes stands for a character: it is the character, or an escape of it. -/
inductive Quotes : List Char → Char → Prop
  | self {c : Char} : c ≠ '"' → c ≠ '\\' → 32 ≤ c.toNat → Quotes [c] c
  | escape {e c : Char} : (e, c) ∈ [('"', '"'), ('\\', '\\'), ('n', '\n'), ('r', '\r'),
      ('t', '\t'), ('b', Char.ofNat 8), ('f', Char.ofNat 12)] → Quotes ['\\', e] c
  | code {a b c : Char} {m n : Nat} : lowerDigits[m]? = some a → lowerDigits[n]? = some b →
      c.toNat = 16 * m + n → Quotes ['\\', 'u', '0', '0', a, b] c

/-- A text is a string in double quotes. -/
def IsQuoted (text : List Char) (s : String) : Prop :=
  ∃ parts, text = '"' :: (parts.flatten ++ ['"']) ∧ List.Forall₂ Quotes parts s.toList

theorem hexDigits_of_control : ∀ n < 32,
    Text.hexDigits 4 n = ['0', '0', Text.hexDigit (n / 16), Text.hexDigit (n % 16)] := by
  decide +kernel

theorem quotes_jsonEscape (c : Char) : Quotes (Text.jsonEscape c) c := by
  unfold Text.jsonEscape
  split_ifs with h1 h2 h3 h4 h5 h6 h7 h8
  case pos => exact .escape (by simp [h1])
  case pos => exact .escape (by simp [h2])
  case pos => exact .escape (by simp [h3])
  case pos => exact .escape (by simp [h4])
  case pos => exact .escape (by simp [h5])
  case pos =>
    have hc : c = Char.ofNat 8 := by rw [← h6, Char.ofNat_toNat]
    exact .escape (by simp [hc])
  case pos =>
    have hc : c = Char.ofNat 12 := by rw [← h7, Char.ofNat_toNat]
    exact .escape (by simp [hc])
  case pos =>
    have hdigit : ∀ n < 16, lowerDigits[n]? = some (Text.hexDigit n) := by decide
    rw [hexDigits_of_control _ h8]
    exact .code (hdigit _ (by omega)) (hdigit _ (by omega)) (by omega)
  case neg => exact .self h1 h2 (Nat.le_of_not_lt h8)

theorem isQuoted_jsonQuoted (s : String) : IsQuoted (Text.jsonQuoted s).toList s := by
  refine ⟨s.toList.map Text.jsonEscape, ?_, ?_⟩
  · simp [Text.jsonQuoted, Text.jsonQuote, List.flatMap_def]
  · exact List.forall₂_map_left_iff.2 (List.forall₂_same.2 fun c _ => quotes_jsonEscape c)

theorem ofDigits?_lowerDigits {a b : Char} {m n : Nat} (ha : lowerDigits[m]? = some a)
    (hb : lowerDigits[n]? = some b) : Text.ofDigits? 16 ['0', '0', a, b] = some (16 * m + n) := by
  have hvalue : ∀ k (h : k < lowerDigits.length), Text.hexValue? lowerDigits[k] = some k := by
    decide
  obtain ⟨hm, rfl⟩ := List.getElem?_eq_some_iff.1 ha
  obtain ⟨hn, rfl⟩ := List.getElem?_eq_some_iff.1 hb
  have hzero : Text.hexValue? '0' = some 0 := by decide
  have hm16 : m < 16 := hm
  have hn16 : n < 16 := hn
  simp [Text.ofDigits?, hvalue, hzero, hm16, hn16, Nat.mul_comm]

/-- An escaped character is read as itself. -/
theorem stringBody?_quotes {part : List Char} {c : Char} (h : Quotes part c) (fuel : Nat)
    (acc : List Nat) (rest : List Char) :
    stringBody? '"' (fuel + 1) acc (part ++ rest) =
      stringBody? '"' fuel (c.toNat :: acc) rest := by
  cases h with
  | self h1 h2 h3 =>
    have hfeed : c ≠ '\n' ∧ c ≠ '\r' := by
      constructor <;> rintro rfl <;> exact absurd h3 (by decide)
    simp [stringBody?, h1, h2, hfeed]
  | @escape e _ h =>
    simp only [List.mem_cons, Prod.mk.injEq, List.not_mem_nil, or_false] at h
    rcases h with ⟨rfl, rfl⟩ | ⟨rfl, rfl⟩ | ⟨rfl, rfl⟩ | ⟨rfl, rfl⟩ | ⟨rfl, rfl⟩ | ⟨rfl, rfl⟩ |
      ⟨rfl, rfl⟩ <;> simp [stringBody?, escape?, isLineEnd, isOctal]
  | code ha hb hc =>
    have hvalue := ofDigits?_lowerDigits ha hb
    simp [stringBody?, escape?, isLineEnd, unicodeEscape?, hvalue, hc]

theorem stringBody?_parts {parts : List (List Char)} {cs : List Char}
    (h : List.Forall₂ Quotes parts cs) {fuel : Nat} (hfuel : cs.length < fuel) (acc : List Nat)
    (rest : List Char) :
    stringBody? '"' fuel acc (parts.flatten ++ '"' :: rest) =
      some (acc.reverse ++ cs.map Char.toNat, rest) := by
  obtain ⟨fuel, rfl⟩ := Nat.exists_eq_succ_of_ne_zero (Nat.ne_of_gt (Nat.zero_lt_of_lt hfuel))
  induction h generalizing acc fuel with
  | nil => simp [stringBody?]
  | @cons part c parts cs hpart hparts ih =>
    have hfuel : cs.length < fuel := by simpa using hfuel
    obtain ⟨fuel, rfl⟩ := Nat.exists_eq_succ_of_ne_zero (Nat.ne_of_gt (Nat.zero_lt_of_lt hfuel))
    rw [List.flatten_cons, List.append_assoc, stringBody?_quotes hpart, ih _ _ hfuel]
    simp

theorem not_surrogate (c : Char) : isLead c.toNat = false ∧ isTrail c.toNat = false := by
  have hvalid : c.toNat < 0xD800 ∨ 0xDFFF < c.toNat := by
    rcases c.valid with h | h
    · exact Or.inl h
    · exact Or.inr h.1
  simp only [isLead, isTrail, Bool.and_eq_false_iff, decide_eq_false_iff_not]
  omega

theorem joinPairs_of_not_lead {points : List Nat} (h : ∀ n ∈ points, isLead n = false) :
    joinPairs points = points := by
  fun_induction joinPairs points with
  | case1 => rfl
  | case2 => rfl
  | case3 a b rest hpair ih =>
    have := h a List.mem_cons_self
    rw [hpair.1] at this
    cases this
  | case4 a b rest _ ih => rw [ih fun n hn => h n (List.mem_cons_of_mem _ hn)]

theorem textOfPoints_toNat (cs : List Char) : textOfPoints (cs.map Char.toNat) = cs := by
  have hjoin : joinPairs (cs.map Char.toNat) = cs.map Char.toNat := by
    refine joinPairs_of_not_lead fun n hn => ?_
    obtain ⟨c, -, rfl⟩ := List.mem_map.1 hn
    exact (not_surrogate c).1
  have hlone : (cs.map Char.toNat).any (fun n => isLead n || isTrail n) = false := by
    simp [not_surrogate]
  unfold textOfPoints
  simp only [hjoin, hlone, List.map_map, Bool.false_eq_true, if_false]
  exact List.map_id'' Char.ofNat_toNat cs

theorem length_le_of_quotes {parts : List (List Char)} {cs : List Char}
    (h : List.Forall₂ Quotes parts cs) : cs.length ≤ parts.flatten.length := by
  induction h with
  | nil => simp
  | cons hpart _ ih =>
    rw [List.flatten_cons, List.length_append, List.length_cons]
    cases hpart <;> simp only [List.length_cons, List.length_nil] <;> omega

/-- A string in double quotes is scanned as itself. -/
theorem scans_isQuoted {text : List Char} {s : String} (h : IsQuoted text s) (rest : List Char) :
    Scans (text ++ rest) (.string s) rest := by
  obtain ⟨parts, rfl, hparts⟩ := h
  have hlength := length_le_of_quotes hparts
  refine ⟨⟨'"', _, rfl, by decide⟩, ?_, fun fuel hfuel => ?_⟩
  · simp only [List.cons_append, List.length_cons, List.length_append]
    omega
  · simp only [List.cons_append, List.length_cons, List.length_append, List.append_assoc,
      List.nil_append] at hfuel ⊢
    have hbody : stringBody? '"' fuel [] (parts.flatten ++ '"' :: rest) = _ :=
      stringBody?_parts hparts (by omega) [] rest
    have hname : isNameStart '"' = false := by decide
    have hdigit : Text.isAsciiDigit '"' = false := by decide
    simp [Token.scan, hname, hdigit, hbody, textOfPoints_toNat]

/-! ## Several tokens -/

/-- A text begins with tokens, each of them with a blank in front at most. -/
inductive Spells : List Char → List Token → List Char → Prop where
  | nil {rest : List Char} : Spells rest [] rest
  | cons {lead text mid rest : List Char} {t : Token} {ts : List Token} :
    lead = [] ∨ lead = [' '] → Scans text t mid → Spells mid ts rest →
    Spells (lead ++ text) (t :: ts) rest

variable {text mid rest : List Char} {t : Token} {ts us : List Token}

theorem Spells.next (h : Scans text t mid) (k : Spells mid ts rest) : Spells text (t :: ts) rest :=
  .cons (Or.inl rfl) h k

theorem Spells.blank (h : Scans text t mid) (k : Spells mid ts rest) :
    Spells (' ' :: text) (t :: ts) rest := .cons (Or.inr rfl) h k

theorem Spells.append (h : Spells text ts mid) (k : Spells mid us rest) :
    Spells text (ts ++ us) rest := by
  induction h with
  | nil => exact k
  | cons hlead hscan _ ih => exact .cons hlead hscan (ih k)

theorem Spells.length_le (h : Spells text ts rest) : ts.length + rest.length ≤ text.length := by
  induction h with
  | nil => simp
  | cons _ hscan _ ih =>
    have := hscan.shorter
    simp only [List.length_cons, List.length_append]
    omega

/-! ## Cursors -/

/-- The cursor on the next token. -/
def Cursor.next (s : Setting) (c : Cursor) : Cursor :=
  Parser.cursorAt s false (c.token = .punct "=" || c.token = .punct "(") c.span.stop c.span.stop
    c.rest c.comments

theorem advance_eq (s : Setting) (c : Cursor) : Parser.advance s c = .ok ((), c.next s) := rfl

namespace Parser

variable {α β : Type} (s : Setting) (c : Cursor)

theorem bind_apply (p : Parser α) (f : α → Parser β) :
    (p >>= f) s c =
      match p s c with
      | .ok (a, d) => f a s d
      | .error e => .error e := rfl

theorem pure_apply (a : α) : (pure a : Parser α) s c = .ok (a, c) := rfl

theorem cursor_apply : cursor s c = .ok (c, c) := rfl

theorem setting_apply : setting s c = .ok (s, c) := rfl

theorem position_apply : position s c = .ok (c.span.start, c) := rfl

theorem within_apply (f : Setting → Setting) (p : Parser α) : within f p s c = p (f s) c := rfl

theorem finish_apply (start : Nat) (kind : Kind) (cs : List Node) (text : String)
    (marks : List Mark) :
    finish start kind cs text marks s c = .ok (.mk kind marks text ⟨start, c.lastStop⟩ cs, c) := rfl

theorem leaf_apply (kind : Kind) (text : String) (marks : List Mark) :
    leaf kind text marks s c =
      .ok (.mk kind marks text ⟨c.span.start, (c.next s).lastStop⟩ [], c.next s) := rfl

theorem skip_of_token {p : String} (h : c.token = .punct p) :
    skip p s c = .ok (true, c.next s) := by
  simp [skip, bind_apply, atPunct, h, advance_eq, pure_apply]

theorem expect_of_token {p : String} (h : c.token = .punct p) :
    expect p s c = .ok ((), c.next s) := by
  simp [expect, bind_apply, skip_of_token s c h, pure_apply]

/-! ### Repetition -/

theorem rounds_succ (step : α → Parser (α ⊕ β)) (n : Nat) (a : α) :
    rounds step (n + 1) a s c =
      match step a s c with
      | .ok (.inl a, d) => rounds step n a s d
      | .ok (.inr b, d) => .ok (b, d)
      | .error e => .error e := by
  simp only [rounds, bind_apply]
  cases step a s c with
  | error e => rfl
  | ok r =>
    obtain ⟨r | r, d⟩ := r <;> rfl

theorem loop_of_inr {step : α → Parser (α ⊕ β)} {a : α} {b : β} {d : Cursor}
    (h : step a s c = .ok (.inr b, d)) : loop step a s c = .ok (b, d) := by
  rw [loop, rounds_succ, h]

theorem loop_apply (step : α → Parser (α ⊕ β)) (a : α) :
    loop step a s c = rounds step (s.size - c.lastStop + 2) a s c := rfl

end Parser

theorem next_apply (s : Setting) (c : Cursor) : Grammar.next s c = .ok (c.next s, c) := rfl

/-- A text is left behind the token of a cursor. -/
def Cursor.Leaves (s : Setting) (c : Cursor) (text : List Char) : Prop :=
  c.rest = text ∧ c.span.stop + text.length = s.size

/-- A cursor meets tokens on the way to another one. There are as many characters as tokens at
least. -/
def Reads (s : Setting) : List Token → Cursor → Cursor → Prop
  | [], c, d => c = d
  | t :: ts, c, d => c.token = t ∧ c.lastStop + (ts.length + 1) ≤ s.size ∧ Reads s ts (c.next s) d

variable {s : Setting} {first holds : Bool} {lastStop offset : Nat} {comments : List Comment}

theorem Reads.split {c e : Cursor} (h : Reads s (ts ++ us) c e) :
    ∃ d, Reads s ts c d ∧ Reads s us d e := by
  induction ts generalizing c with
  | nil => exact ⟨c, rfl, h⟩
  | cons t ts ih =>
    obtain ⟨ht, hbound, hrest⟩ := h
    obtain ⟨d, hd, he⟩ := ih hrest
    have hle : (ts ++ us).length = ts.length + us.length := List.length_append
    simp only [List.append_eq, hle] at hbound
    exact ⟨d, ⟨ht, by omega, hd⟩, he⟩

theorem skipTrivia_of_beginsToken {c : Char} {cs : List Char} (hc : beginsToken c = true)
    (isModule holds : Bool) (fuel : Nat) (t : Trivia) (broken : Bool) :
    skipTrivia isModule holds (fuel + 1) t broken (c :: cs) = some (t, broken, c :: cs) := by
  simp only [beginsToken, List.contains_cons, List.contains_nil, Bool.or_false, Bool.and_eq_true,
    Bool.not_eq_true', Bool.or_eq_false_iff, beq_eq_false_iff_ne, ne_eq] at hc
  obtain ⟨⟨hline, hspace⟩, hslash, hless, hminus⟩ := hc
  unfold skipTrivia
  simp only [hline, hspace, Bool.false_eq_true, if_false]
  split <;> simp_all

theorem skipTrivia_blank (isModule holds : Bool) (fuel : Nat) (t : Trivia) (broken : Bool)
    (cs : List Char) :
    skipTrivia isModule holds (fuel + 1) t broken (' ' :: cs) =
      skipTrivia isModule holds fuel t broken cs := by
  simp [skipTrivia, isLineEnd, isSpace]

/-- A cursor is on the token that a text begins with, behind a blank or not. -/
theorem cursorAt_of_scans {after lead : List Char} (h : Scans text t after)
    (hlead : lead = [] ∨ lead = [' ']) (hsize : offset + (lead ++ text).length = s.size) :
    Parser.cursorAt s first holds lastStop offset (lead ++ text) comments =
      ⟨t, ⟨s.size - text.length, s.size - after.length⟩, first, text, after, lastStop, comments,
        false⟩ := by
  obtain ⟨c, cs, rfl, hc⟩ := h.begins
  have htrivia : skipTrivia s.dialect.isModule holds (s.size - offset + 2) ⟨first, []⟩ first
      (lead ++ c :: cs) = some (⟨first, []⟩, first, c :: cs) := by
    rcases hlead with rfl | rfl
    · exact skipTrivia_of_beginsToken hc _ _ _ _ _
    · exact (skipTrivia_blank _ _ _ _ _ _).trans (skipTrivia_of_beginsToken hc _ _ _ _ _)
  have hscan := h.scan (s.size - offset + 2) (by
    rw [← hsize, List.length_append]
    omega)
  simp [Parser.cursorAt, htrivia, hscan]

/-- Where a text spells tokens they are met, and behind the last of them stands the rest. -/
theorem Spells.reads (h : Spells text ts rest) (hts : ts ≠ [])
    (hsize : offset + text.length = s.size) (hlast : lastStop ≤ offset) :
    ∃ l : Cursor, Reads s ts (Parser.cursorAt s first holds lastStop offset text comments)
        (l.next s) ∧
      l.Leaves s rest ∧ l.comments = comments ∧ ts.getLast? = some l.token := by
  -- The cursor on a token is known from the text, and the next one is in front of what it leaves.
  induction h generalizing first holds lastStop offset with
  | nil => exact absurd rfl hts
  | @cons lead text mid rest t ts hlead hscan hrest ih =>
    have hshorter := hscan.shorter
    have hle := hrest.length_le
    rw [cursorAt_of_scans hscan hlead hsize]
    rw [List.length_append] at hsize
    have hleaves : s.size - mid.length + mid.length = s.size := by omega
    cases ts with
    | nil =>
      cases hrest
      exact ⟨_, ⟨rfl, by simp only [List.length_nil]; omega, rfl⟩, ⟨rfl, hleaves⟩, rfl, rfl⟩
    | cons u ts =>
      obtain ⟨l, hreads, hl, hcomments, hlast'⟩ := ih (by simp) hleaves (Nat.le_refl _)
      refine ⟨l, ⟨rfl, ?_, hreads⟩, hl, hcomments, ?_⟩
      · simp only [List.length_cons] at hle ⊢
        omega
      · rw [List.getLast?_cons_cons]
        exact hlast'

end ScriptLoader.Syntax
