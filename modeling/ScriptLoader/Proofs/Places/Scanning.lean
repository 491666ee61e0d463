import Mathlib.Data.List.Infix
import ScriptLoader.Proofs.Syntax.Names

/-!
# What scanning leaves

Every scanner leaves an end of the text it was given, and a token takes a character at least. What
is read as a string ends with its quote, and is read as the same string whatever stands behind it.

* `stringBody?_spelled`: the text of a string.
* `suffix_scan`, `shorter_scan`: the characters behind a token.
* `suffix_skipTrivia`: the characters behind blanks and comments.
-/

namespace ScriptLoader.Syntax

variable {cs rest : List Char} {fuel : Nat} {β : Type}

/-! ## Escapes -/

/-- The scanner takes some characters, or none, and of what it leaves it has seen the first one at
most. -/
def Takes (scan : List Char → Option (β × List Char)) : Prop :=
  ∀ cs b rest, scan cs = some (b, rest) → ∃ front, cs = front ++ rest ∧
    ∀ tail, tail.head? = rest.head? → scan (front ++ tail) = some (b, tail)

namespace Takes

variable {f g : List Char → Option (β × List Char)}

theorem refused : Takes fun _ => (none : Option (β × List Char)) := by
  rintro cs b rest ⟨⟩

theorem same (b : β) : Takes fun cs => some (b, cs) := by
  rintro cs b rest ⟨⟩
  exact ⟨[], rfl, fun tail _ => rfl⟩

theorem map {γ : Type} (k : β → γ) (h : Takes f) :
    Takes fun cs => (f cs).map fun (b, rest) => (k b, rest) := by
  intro cs c rest hc
  obtain ⟨⟨b, after⟩, hb, hc⟩ := Option.map_eq_some_iff.1 hc
  cases hc
  obtain ⟨front, rfl, hfront⟩ := h cs b rest hb
  exact ⟨front, rfl, fun tail ht => Option.map_eq_some_iff.2 ⟨_, hfront tail ht, rfl⟩⟩

theorem cond {p : Prop} {_ : Decidable p} (hf : Takes f) (hg : Takes g) :
    Takes fun cs => if p then f cs else g cs := by
  by_cases hp : p
  · simpa only [if_pos hp] using hf
  · simpa only [if_neg hp] using hg

/-- What decides is the first character. -/
theorem ite {p : Option Char → Prop} [DecidablePred p] (hf : Takes f) (hg : Takes g) :
    Takes fun cs => if p cs.head? then f cs else g cs := by
  intro cs b rest h
  have hhead : ∀ front tail : List Char, cs = front ++ rest → tail.head? = rest.head? →
      (front ++ tail).head? = cs.head? := by
    rintro front tail rfl ht
    rw [List.head?_append, List.head?_append, ht]
  dsimp only at h
  split at h
  · next hp =>
    obtain ⟨front, hcs, hfront⟩ := hf cs b rest h
    refine ⟨front, hcs, fun tail ht => ?_⟩
    simp only [hhead front tail hcs ht, if_pos hp]
    exact hfront tail ht
  · next hp =>
    obtain ⟨front, hcs, hfront⟩ := hg cs b rest h
    refine ⟨front, hcs, fun tail ht => ?_⟩
    simp only [hhead front tail hcs ht, if_neg hp]
    exact hfront tail ht

theorem suffix (hf : Takes f) {b : β} (h : f cs = some (b, rest)) : rest <:+ cs := by
  obtain ⟨front, rfl, -⟩ := hf cs b rest h
  exact List.suffix_append front rest

end Takes

theorem takes_unicodeEscape? : Takes unicodeEscape? := by
  intro cs n rest h
  unfold unicodeEscape? at h
  split at h
  · next cs =>
    dsimp only at h
    split at h
    · next after hdrop =>
      have hcs : cs = cs.takeWhile isHexChar ++ '\x7d' :: after := by
        rw [← hdrop, List.takeWhile_append_dropWhile]
      have hdigits : ∀ c ∈ cs.takeWhile isHexChar, isHexChar c = true := fun c hc =>
        List.all_eq_true.1 List.all_takeWhile c hc
      have hbrace : ¬ isHexChar '\x7d' = true := by decide
      generalize cs.takeWhile isHexChar = digits at *
      have hread : ∀ tail m, Text.ofDigits? 16 digits = some m →
          ¬ (digits.isEmpty ∨ m > 0x10FFFF) →
          unicodeEscape? ('\x7b' :: (digits ++ '\x7d' :: tail)) = some (m, tail) := by
        intro tail m hm hd
        have htake : (digits ++ '\x7d' :: tail).takeWhile isHexChar = digits := by
          rw [List.takeWhile_append_of_pos hdigits, List.takeWhile_cons_of_neg hbrace,
            List.append_nil]
        have hrest : (digits ++ '\x7d' :: tail).dropWhile isHexChar = '\x7d' :: tail := by
          rw [List.dropWhile_append_of_pos hdigits, List.dropWhile_cons_of_neg hbrace]
        rw [unicodeEscape?, htake, hrest, hm]
        exact if_neg hd
      split at h
      · next m hm =>
        split at h
        · cases h
        · next hd =>
          cases h
          refine ⟨'\x7b' :: (digits ++ ['\x7d']), by simp [hcs], fun tail _ => ?_⟩
          rw [List.cons_append, List.append_assoc, List.singleton_append]
          exact hread tail _ hm hd
      · cases h
    · cases h
  · next a b c d after hbrace =>
    obtain ⟨m, hm, h⟩ := Option.map_eq_some_iff.1 h
    cases h
    refine ⟨[a, b, c, d], rfl, fun tail _ => ?_⟩
    simp only [List.cons_append, List.nil_append]
    rw [unicodeEscape?]
    · exact Option.map_eq_some_iff.2 ⟨_, hm, rfl⟩
    · exact hbrace
  · cases h

section

variable {a b d : Char}

theorem octalEscape_one (h : ∀ b ∈ cs.head?, isOctal b = false) :
    octalEscape (a :: cs) = (a.toNat - 48, cs) := by
  rcases cs with _ | ⟨b, _ | ⟨d, cs⟩⟩
  · simp [octalEscape]
  all_goals
    have hb : isOctal b = false := h b rfl
    simp [octalEscape, hb]

theorem octalEscape_two (hb : isOctal b = true)
    (h : ∀ d ∈ cs.head?, ¬ (isOctal d = true ∧ a ≤ '3')) :
    octalEscape (a :: b :: cs) = (8 * (a.toNat - 48) + (b.toNat - 48), cs) := by
  cases cs with
  | nil => simp [octalEscape, hb]
  | cons d cs =>
    simp only [octalEscape, hb, if_true, if_neg (h d rfl)]
    simp

theorem octalEscape_three (hb : isOctal b = true) (hd : isOctal d = true) (ha : a ≤ '3') :
    octalEscape (a :: b :: d :: cs) =
      (8 * (8 * (a.toNat - 48) + (b.toNat - 48)) + (d.toNat - 48), cs) := by
  simp only [octalEscape, hb, if_true, if_pos (And.intro hd ha)]
  simp

end

theorem takes_octalEscape (a : Char) : Takes fun cs => some (octalEscape (a :: cs)) := by
  intro cs n rest h
  have h : octalEscape (a :: cs) = (n, rest) := Option.some.inj h
  by_cases hone : ∀ b ∈ cs.head?, isOctal b = false
  · rw [octalEscape_one hone] at h
    cases h
    exact ⟨[], rfl, fun tail ht => congrArg some (octalEscape_one (ht ▸ hone))⟩
  · obtain ⟨b, cs, rfl⟩ : ∃ b after, cs = b :: after :=
      List.exists_cons_of_ne_nil (by rintro rfl; simp at hone)
    have hb : isOctal b = true := by simpa using hone
    by_cases htwo : ∀ d ∈ cs.head?, ¬ (isOctal d = true ∧ a ≤ '3')
    · rw [octalEscape_two hb htwo] at h
      cases h
      exact ⟨[b], rfl, fun tail ht => congrArg some (octalEscape_two hb (ht ▸ htwo))⟩
    · obtain ⟨d, cs, rfl⟩ : ∃ d after, cs = d :: after :=
        List.exists_cons_of_ne_nil (by rintro rfl; simp at htwo)
      obtain ⟨hd, ha⟩ : isOctal d = true ∧ a ≤ '3' := by simpa using htwo
      rw [octalEscape_three hb hd ha] at h
      cases h
      exact ⟨[b, d], rfl, fun tail _ => congrArg some (octalEscape_three hb hd ha)⟩

/-- The escapes that do not begin with a carriage return. -/
theorem escape?_cons {octal : Bool} {c : Char} (hc : c ≠ '\r') (cs : List Char) :
    escape? octal (c :: cs) =
      if isLineEnd c then some (none, cs)
      else if c = 'n' then some (some 10, cs)
      else if c = 't' then some (some 9, cs)
      else if c = 'r' then some (some 13, cs)
      else if c = 'b' then some (some 8, cs)
      else if c = 'v' then some (some 11, cs)
      else if c = 'f' then some (some 12, cs)
      else if c = 'x' then
        match cs with
        | a :: b :: rest => (Text.ofDigits? 16 [a, b]).map fun n => (some n, rest)
        | _ => none
      else if c = 'u' then (unicodeEscape? cs).map fun (n, rest) => (some n, rest)
      else if c = '0' ∧ !(cs.head?.any Text.isAsciiDigit) then some (some 0, cs)
      else if isOctal c then
        if octal then (some (octalEscape (c :: cs))).map fun (n, rest) => (some n, rest) else none
      else if !octal ∧ Text.isAsciiDigit c then none
      else some (some c.toNat, cs) := by
  unfold escape?
  split
  · next heq => cases heq
  · next heq =>
    cases heq
    exact (hc rfl).elim
  · next heq =>
    cases heq
    rfl

theorem takes_hexPair : Takes fun cs => match cs with
    | a :: b :: rest => (Text.ofDigits? 16 [a, b]).map fun n => (some n, rest)
    | _ => none := by
  intro cs n rest h
  dsimp only at h
  split at h
  · next a b rest =>
    obtain ⟨m, hm, h⟩ := Option.map_eq_some_iff.1 h
    cases h
    exact ⟨[a, b], rfl, fun tail _ => Option.map_eq_some_iff.2 ⟨m, hm, rfl⟩⟩
  · cases h

/-- Behind its first character an escape is read without what follows it. -/
theorem takes_escape? (octal : Bool) (c : Char) : Takes fun cs => escape? octal (c :: cs) := by
  by_cases hc : c = '\r'
  · subst hc
    have hbreak : ∀ cs : List Char, cs.head? ≠ some '\n' →
        escape? octal ('\r' :: cs) = some (none, cs) := by
      rintro (_ | ⟨d, cs⟩) hd
      · rfl
      · have hd : d ≠ '\n' := by simpa using hd
        simp [escape?, hd, isLineEnd]
    intro cs n rest h
    by_cases hn : cs.head? = some '\n'
    · obtain ⟨after, rfl⟩ := List.head?_eq_some_iff.1 hn
      cases h
      exact ⟨['\n'], rfl, fun tail _ => rfl⟩
    · cases (hbreak cs hn).symm.trans h
      exact ⟨[], rfl, fun tail ht => hbreak tail (ht ▸ hn)⟩
  · simp only [escape?_cons hc]
    have hpoint : Takes fun cs =>
        if c = '0' ∧ !(cs.head?.any Text.isAsciiDigit) then some (some 0, cs)
        else if isOctal c then
          if octal then (some (octalEscape (c :: cs))).map fun (n, rest) => (some n, rest)
          else none
        else if !octal ∧ Text.isAsciiDigit c then none
        else some (some c.toNat, cs) :=
      .ite (p := fun d => c = '0' ∧ !(d.any Text.isAsciiDigit)) (.same _) <|
        .cond (.cond ((takes_octalEscape c).map some) .refused) <| .cond .refused (.same _)
    exact .cond (.same _) <| .cond (.same _) <| .cond (.same _) <| .cond (.same _) <|
      .cond (.same _) <| .cond (.same _) <| .cond (.same _) <| .cond takes_hexPair <|
      .cond (takes_unicodeEscape?.map some) hpoint

theorem exists_cons_of_escape? {octal : Bool} {n : Option Nat}
    (h : escape? octal cs = some (n, rest)) : ∃ c after, cs = c :: after ∧ rest <:+ after := by
  rcases cs with _ | ⟨c, cs⟩
  · cases h
  · exact ⟨c, cs, rfl, (takes_escape? octal c).suffix h⟩

/-! ## Strings -/

/-- An escape in front of the rest of a string. -/
theorem escape?_spelled {quote : Char} {n : Option Nat} {acc next points : List Nat}
    {body : List Char} (hescape : escape? true cs = some (n, body ++ quote :: rest))
    (hstep : ∀ k cs tail, escape? true cs = some (n, tail) →
      stringBody? quote (k + 1) acc ('\\' :: cs) = stringBody? quote k next tail)
    (hbody : ∀ tail k, body.length < k →
      stringBody? quote k next (body ++ quote :: tail) = some (points, tail)) :
    ∃ front, '\\' :: cs = front ++ quote :: rest ∧ ∀ tail k, front.length < k →
      stringBody? quote k acc (front ++ quote :: tail) = some (points, tail) := by
  rcases cs with _ | ⟨c, cs⟩
  · cases hescape
  obtain ⟨front, rfl, hfront⟩ := takes_escape? true c cs n _ hescape
  refine ⟨'\\' :: c :: front ++ body, by simp, fun tail k hk => ?_⟩
  simp only [List.cons_append, List.length_cons, List.length_append] at hk
  obtain ⟨k, rfl⟩ := Nat.exists_eq_succ_of_ne_zero (Nat.ne_of_gt (Nat.zero_lt_of_lt hk))
  have hread : escape? true (c :: (front ++ (body ++ quote :: tail))) = _ :=
    hfront (body ++ quote :: tail) (by cases body <;> rfl)
  rw [List.cons_append, List.cons_append, List.cons_append, List.cons_append, List.append_assoc,
    hstep k _ _ hread]
  exact hbody tail k (by omega)

/-- What is read as a string ends with the quote, and whatever stands behind it does not matter. -/
theorem stringBody?_spelled {quote : Char} {acc points : List Nat}
    (h : stringBody? quote fuel acc cs = some (points, rest)) :
    ∃ body, cs = body ++ quote :: rest ∧ ∀ tail k, body.length < k →
      stringBody? quote k acc (body ++ quote :: tail) = some (points, tail) := by
  fun_induction stringBody? quote fuel acc cs with
  | case1 => cases h
  | case2 => cases h
  | case3 fuel acc cs =>
    cases h
    refine ⟨[], rfl, fun tail k hk => ?_⟩
    obtain ⟨k, rfl⟩ := Nat.exists_eq_succ_of_ne_zero (Nat.ne_of_gt hk)
    simp [stringBody?]
  | case4 fuel acc cs n after hescape hquote ih =>
    obtain ⟨body, rfl, hbody⟩ := ih h
    exact escape?_spelled hescape
      (fun k cs tail hread => by rw [stringBody?, if_neg hquote, if_pos rfl, hread]) hbody
  | case5 fuel acc cs after hescape hquote ih =>
    obtain ⟨body, rfl, hbody⟩ := ih h
    exact escape?_spelled hescape
      (fun k cs tail hread => by rw [stringBody?, if_neg hquote, if_pos rfl, hread]) hbody
  | case6 => cases h
  | case7 => cases h
  | case8 fuel acc c cs hquote hslash hbreak ih =>
    obtain ⟨body, rfl, hbody⟩ := ih h
    refine ⟨c :: body, rfl, fun tail k hk => ?_⟩
    rw [List.length_cons] at hk
    obtain ⟨k, rfl⟩ := Nat.exists_eq_succ_of_ne_zero (Nat.ne_of_gt (Nat.zero_lt_of_lt hk))
    rw [List.cons_append, stringBody?, if_neg hquote, if_neg hslash, if_neg hbreak]
    exact hbody tail k (by omega)

/-! ## Tokens -/

/-- What is left is an end of the text, and a shorter one. -/
def Shrinks (cs rest : List Char) : Prop := rest <:+ cs ∧ rest.length < cs.length

theorem shrinks_cons {c : Char} (h : rest <:+ cs) : Shrinks (c :: cs) rest :=
  ⟨h.trans (List.suffix_cons c cs), Nat.lt_succ_of_le h.length_le⟩

theorem Shrinks.trans {after : List Char} (h : Shrinks after rest) (hcs : after <:+ cs) :
    Shrinks cs rest := ⟨h.1.trans hcs, Nat.lt_of_lt_of_le h.2 hcs.length_le⟩

theorem Shrinks.of_ne (h : rest <:+ cs) (hne : rest ≠ cs) : Shrinks cs rest :=
  ⟨h, Nat.lt_of_le_of_ne h.length_le fun hlength => hne (h.eq_of_length hlength)⟩

theorem suffix_nameBody? {acc name : List Char} {escaped e : Bool}
    (h : nameBody? fuel acc escaped cs = some (name, e, rest)) :
    rest <:+ cs ∧ name.length + rest.length ≤ acc.length + cs.length := by
  fun_induction nameBody? fuel acc escaped cs with
  | case1 => cases h
  | case2 =>
    cases h
    simp
  | case3 fuel acc escaped cs n after hescape d hd ih =>
    have hafter := takes_unicodeEscape?.suffix hescape
    obtain ⟨hrest, hlength⟩ := ih h
    refine ⟨(hrest.trans hafter).trans ⟨['\\', 'u'], rfl⟩, ?_⟩
    have := hafter.length_le
    simp only [List.length_cons] at hlength ⊢
    omega
  | case4 => cases h
  | case5 => cases h
  | case6 => cases h
  | case7 fuel acc escaped c cs hne hc ih =>
    obtain ⟨hrest, hlength⟩ := ih h
    refine ⟨hrest.trans (List.suffix_cons c cs), ?_⟩
    simp only [List.length_cons] at hlength ⊢
    omega
  | case8 =>
    cases h
    simp

theorem shrinks_scanName {name : String} {e : Bool} (h : scanName fuel cs = some (name, e, rest)) :
    Shrinks cs rest := by
  unfold scanName at h
  split at h
  · next body escaped after hbody =>
    split at h
    · cases h
    · next hne =>
      cases h
      obtain ⟨hrest, hlength⟩ := suffix_nameBody? hbody
      have hpos : 0 < body.length := List.length_pos_iff.2 (by simpa using hne)
      simp only [List.length_nil] at hlength
      exact ⟨hrest, by omega⟩
  · cases h

theorem suffix_digitRun? {isDigit : Char → Bool} {run : List Char}
    (h : digitRun? isDigit cs = some (run, rest)) : rest <:+ cs := by
  unfold digitRun? at h
  dsimp only at h
  split at h
  · cases h
  · cases h
    exact List.dropWhile_suffix _

theorem suffix_scanBased (isDigit : Char → Bool) (mark cs : List Char) :
    (scanBased isDigit mark cs).2 <:+ cs := by
  unfold scanBased
  split
  · exact List.nil_suffix
  · next ds rest hrun =>
    have hrest := suffix_digitRun? hrun
    split
    · exact List.nil_suffix
    · split
      · exact (List.suffix_cons _ _).trans hrest
      · exact hrest

theorem suffix_exponentRun? {run : List Char} (h : exponentRun? cs = some (run, rest)) :
    rest <:+ cs := by
  unfold exponentRun? at h
  split at h
  · cases h
    exact List.suffix_rfl
  · next e after =>
    split at h
    · cases h
      exact List.suffix_rfl
    · dsimp only at h
      split at h
      · next ds rest' hrun =>
        split at h
        · cases h
        · cases h
          refine ((suffix_digitRun? hrun).trans ?_).trans (List.suffix_cons _ after)
          -- A sign in front of the digits is passed over.
          split
          · exact List.suffix_cons _ _
          · exact List.suffix_cons _ _
          · exact List.suffix_rfl
      · cases h

/-- A scanner that fails leaves nothing. -/
theorem suffix_getD {answer : Option (Token × List Char)} (h : ∀ r ∈ answer, r.2 <:+ cs) :
    (answer.getD (.invalid, [])).2 <:+ cs := by
  cases answer with
  | none => exact List.nil_suffix
  | some r => exact h r rfl

theorem suffix_scanDecimal (cs : List Char) : (scanDecimal cs).2 <:+ cs := by
  refine suffix_getD fun r hr => ?_
  simp only [Option.mem_def, Option.bind_eq_bind, Option.bind_eq_some_iff] at hr
  obtain ⟨⟨whole, rest⟩, hwhole, hr⟩ := hr
  have hrest := suffix_digitRun? hwhole
  dsimp only at hr
  split at hr
  · split at hr
    · cases hr
    · cases hr
      exact (List.suffix_cons _ _).trans hrest
  · simp only [Option.bind_eq_some_iff] at hr
    obtain ⟨⟨frac, behind⟩, hfrac, ⟨ex, last⟩, hex, hr⟩ := hr
    cases hr
    exact (((suffix_exponentRun? hex).trans (suffix_digitRun? hfrac)).trans
      (List.suffix_cons _ _)).trans hrest
  · simp only [Option.bind_eq_some_iff] at hr
    obtain ⟨⟨ex, last⟩, hex, hr⟩ := hr
    cases hr
    exact (suffix_exponentRun? hex).trans hrest

theorem suffix_scanDecimal_dot (cs : List Char) : (scanDecimal ('.' :: cs)).2 <:+ cs := by
  refine suffix_getD fun r hr => ?_
  have hwhole : digitRun? Text.isAsciiDigit ('.' :: cs) = some ([], '.' :: cs) := by
    simp [digitRun?, Text.isAsciiDigit]
  simp only [Option.mem_def, Option.bind_eq_bind, hwhole, Option.bind_some,
    Option.bind_eq_some_iff] at hr
  obtain ⟨⟨frac, behind⟩, hfrac, ⟨ex, last⟩, hex, hr⟩ := hr
  cases hr
  exact (suffix_exponentRun? hex).trans (suffix_digitRun? hfrac)

/-- What a number may begin with. -/
def BeginsNumber (cs : List Char) : Prop :=
  (∃ c after, cs = c :: after ∧ Text.isAsciiDigit c = true) ∨ ∃ after, cs = '.' :: after

theorem suffix_scanNumber (cs : List Char) : (scanNumber cs).2 <:+ cs := by
  have hsuffix : ∀ {r : Token × List Char} {token rest}, r = (token, rest) → r.2 <:+ cs →
      rest <:+ cs := by
    rintro _ _ _ rfl h
    exact h
  unfold scanNumber
  split
  next token rest hscan =>
    have hrest : rest <:+ cs := by
      refine hsuffix hscan ?_
      repeat' first
        | exact (suffix_scanBased _ _ _).trans ⟨[_, _], rfl⟩
        | exact suffix_scanDecimal _
        | exact (List.dropWhile_suffix _).trans ⟨[_, _], rfl⟩
        | split
        | dsimp only
    split
    · split
      · exact List.nil_suffix
      · exact hrest
    · exact hrest

/-- A number is not followed by a digit. -/
theorem not_digit_of_scanNumber {c : Char} (h : (scanNumber cs).1 ≠ .invalid)
    (hc : (scanNumber cs).2 = c :: rest) : Text.isAsciiDigit c = false := by
  revert h hc
  unfold scanNumber
  split
  split
  · next token d after _ =>
    split
    · intro h
      exact absurd rfl h
    · next hend =>
      rintro - ⟨⟩
      simp only [Bool.or_eq_true, not_or, Bool.not_eq_true] at hend
      exact hend.1.2
  · rintro - ⟨⟩

theorem shrinks_scanNumber (hcs : BeginsNumber cs) (h : (scanNumber cs).1 ≠ .invalid) :
    Shrinks cs (scanNumber cs).2 := by
  rcases hcs with ⟨c, after, rfl, hc⟩ | ⟨after, rfl⟩
  · refine .of_ne (suffix_scanNumber _) fun heq => ?_
    rw [not_digit_of_scanNumber h heq] at hc
    cases hc
  · have hrest := suffix_scanDecimal_dot after
    refine shrinks_cons ?_
    unfold scanNumber
    split
    next token rest hscan =>
      have hscan : scanDecimal ('.' :: after) = (token, rest) := hscan
      rw [hscan] at hrest
      split
      · split
        · exact List.nil_suffix
        · exact hrest
      · exact hrest

theorem shrinks_quasiBody? {acc raw : List Char} {sound s last : Bool}
    (h : quasiBody? fuel acc sound cs = some (raw, s, last, rest)) : Shrinks cs rest := by
  fun_induction quasiBody? fuel acc sound cs with
  | case1 => cases h
  | case2 => cases h
  | case3 =>
    cases h
    exact shrinks_cons List.suffix_rfl
  | case4 =>
    cases h
    exact shrinks_cons (List.suffix_cons _ _)
  | case5 fuel acc sound cs n after hescape raw' hend ih =>
    rw [hescape] at h
    obtain ⟨c, behind, rfl, hafter⟩ := exists_cons_of_escape? hescape
    exact (ih h).trans (hafter.trans ⟨['\\', c], rfl⟩)
  | case6 fuel acc sound d after hend hescape ih =>
    rw [hescape] at h
    exact (ih h).trans ⟨['\\', d], rfl⟩
  | case7 fuel acc sound hend hescape =>
    rw [hescape] at h
    cases h
  | case8 fuel acc sound after hend ih => exact (ih h).trans ⟨['\r', '\n'], rfl⟩
  | case9 fuel acc sound cs hbreak hend ih => exact (ih h).trans (List.suffix_cons _ _)
  | case10 fuel acc sound c cs hend _ _ _ _ ih => exact (ih h).trans (List.suffix_cons _ _)

theorem suffix_scanQuasi (fuel : Nat) (cs : List Char) : (scanQuasi fuel cs).2 <:+ cs := by
  unfold scanQuasi
  split
  · next hbody => exact (shrinks_quasiBody? hbody).1
  · exact List.nil_suffix

theorem shrinks_regexBody? {acc body : List Char} {inClass : Bool}
    (h : regexBody? fuel inClass acc cs = some (body, rest)) : Shrinks cs rest := by
  fun_induction regexBody? fuel inClass acc cs with
  | case1 => cases h
  | case2 => cases h
  | case3 => cases h
  | case4 => cases h
  | case5 fuel inClass acc d after _ _ ih => exact (ih h).trans ⟨['\\', d], rfl⟩
  | case6 => cases h
  | case7 =>
    cases h
    exact shrinks_cons List.suffix_rfl
  | case8 fuel inClass acc c cs _ _ _ _ ih => exact (ih h).trans (List.suffix_cons _ _)

theorem shrinks_scanRegex? {text : String} (h : scanRegex? fuel cs = some (text, rest)) :
    Shrinks cs rest := by
  unfold scanRegex? at h
  split at h
  · next cs =>
    simp only [Option.bind_eq_bind, Option.bind_eq_some_iff] at h
    obtain ⟨⟨body, after⟩, hbody, h⟩ := h
    dsimp only at h
    split at h
    · cases h
    · cases h
      exact shrinks_cons ((List.dropWhile_suffix _).trans (shrinks_regexBody? hbody).1)
  · cases h

theorem append_of_firstFront? {ps : List (List Char)} {p : List Char}
    (h : firstFront? ps cs = some (p, rest)) : p ∈ ps ∧ cs = p ++ rest := by
  fun_induction firstFront? ps cs with
  | case1 => cases h
  | case2 q ps cs hq =>
    cases h
    obtain ⟨after, rfl⟩ := List.isPrefixOf_iff_prefix.1 hq
    simp
  | case3 q ps cs hq ih => exact ⟨List.mem_cons_of_mem _ (ih h).1, (ih h).2⟩

theorem shrinks_firstFront? {ps : List (List Char)} {p : List Char} (hps : ∀ q ∈ ps, q ≠ [])
    (h : firstFront? ps cs = some (p, rest)) : Shrinks cs rest := by
  obtain ⟨hp, rfl⟩ := append_of_firstFront? h
  obtain ⟨c, after, rfl⟩ := List.exists_cons_of_ne_nil (hps p hp)
  exact shrinks_cons (List.suffix_append _ _)

theorem shrinks_scanPunct (hne : cs ≠ []) (h : (scanPunct cs).1 ≠ .invalid) :
    Shrinks cs (scanPunct cs).2 := by
  revert h
  have hlong : ∀ q ∈ longPuncts, q ≠ [] := by decide
  unfold scanPunct
  split
  · next p rest hfront =>
    split
    · next hp =>
      obtain ⟨-, rfl⟩ := append_of_firstFront? hfront
      rw [hp.1]
      exact fun _ => shrinks_cons List.suffix_rfl
    · exact fun _ => shrinks_firstFront? hlong hfront
  · split
    · next c rest _ =>
      split
      · exact fun _ => shrinks_cons List.suffix_rfl
      · exact fun h => absurd rfl h
    · exact absurd rfl hne

theorem suffix_scanPunct (cs : List Char) : (scanPunct cs).2 <:+ cs := by
  by_cases h : (scanPunct cs).1 = .invalid
  · revert h
    unfold scanPunct
    split
    · split <;> exact fun h => by cases h
    · split
      · split
        · exact fun h => by cases h
        · exact fun _ => List.nil_suffix
      · exact fun h => by cases h
  · rcases cs with _ | ⟨c, cs⟩
    · exact List.nil_suffix
    · exact (shrinks_scanPunct (List.cons_ne_nil _ _) h).1

/-- What stands behind a token is an end of the text. -/
theorem suffix_scan (fuel : Nat) (cs : List Char) : (Token.scan fuel cs).2 <:+ cs := by
  unfold Token.scan
  split
  · exact List.nil_suffix
  · next c rest =>
    split
    · split
      · next hscan => exact (shrinks_scanName hscan).1
      · exact List.nil_suffix
    · split
      · exact suffix_scanNumber _
      · split
        · split
          · next hbody =>
            obtain ⟨body, hbody, -⟩ := stringBody?_spelled hbody
            rw [hbody]
            exact ((List.suffix_cons _ _).trans (List.suffix_append _ _)).trans
              (List.suffix_cons _ _)
          · exact List.nil_suffix
        · split
          · exact (suffix_scanQuasi _ _).trans (List.suffix_cons _ _)
          · split
            · split
              · next hscan => exact (shrinks_scanName hscan).1.trans (List.suffix_cons _ _)
              · exact List.suffix_cons _ _
            · exact suffix_scanPunct _

/-- A token takes a character at least. -/
theorem shorter_scan (hne : (Token.scan fuel cs).1 ≠ .eof) (h : (Token.scan fuel cs).1 ≠ .invalid) :
    (Token.scan fuel cs).2.length < cs.length := by
  suffices hshrinks : Shrinks cs (Token.scan fuel cs).2 from hshrinks.2
  revert hne h
  unfold Token.scan
  split
  · exact fun h => absurd rfl h
  · next c rest =>
    split
    · split
      · next hscan => exact fun _ _ => shrinks_scanName hscan
      · exact fun _ h => absurd rfl h
    · split
      · next hdigit =>
        have hnumber : BeginsNumber (c :: rest) := by
          simp only [Bool.or_eq_true, Bool.and_eq_true, decide_eq_true_eq] at hdigit
          exact hdigit.imp (fun hc => ⟨c, rest, rfl, hc⟩) fun hc => ⟨rest, by rw [hc.1]⟩
        exact fun _ => shrinks_scanNumber hnumber
      · split
        · split
          · next hbody =>
            obtain ⟨body, hbody, -⟩ := stringBody?_spelled hbody
            rw [hbody]
            exact fun _ _ => shrinks_cons ((List.suffix_cons _ _).trans (List.suffix_append _ _))
          · exact fun _ h => absurd rfl h
        · split
          · exact fun _ _ => shrinks_cons (suffix_scanQuasi _ _)
          · split
            · split
              · next hscan => exact fun _ _ => shrinks_cons (shrinks_scanName hscan).1
              · exact fun _ _ => shrinks_cons List.suffix_rfl
            · exact fun _ => shrinks_scanPunct (List.cons_ne_nil _ _)

/-! ## Blanks and comments -/

theorem suffix_blockBody? {acc text : List Char} (h : blockBody? fuel acc cs = some (text, rest)) :
    rest <:+ cs := by
  fun_induction blockBody? fuel acc cs with
  | case1 => cases h
  | case2 => cases h
  | case3 =>
    cases h
    exact ⟨['*', '/'], rfl⟩
  | case4 fuel acc c cs _ ih => exact (ih h).trans (List.suffix_cons _ _)

theorem suffix_skipTrivia {isModule holds broken b : Bool} {t u : Trivia}
    (h : skipTrivia isModule holds fuel t broken cs = some (u, b, rest)) : rest <:+ cs := by
  -- A line comment may begin at three marks; its text is skipped in one step.
  have hline : ∀ {cs : List Char}, rest <:+ cs.dropWhile (fun c => !isLineEnd c) → rest <:+ cs :=
    fun h => h.trans (List.dropWhile_suffix _)
  fun_induction skipTrivia isModule holds fuel t broken cs with
  | case1 => cases h
  | case2 =>
    cases h
    exact List.suffix_rfl
  | case3 fuel t broken c cs _ ih => exact (ih h).trans (List.suffix_cons _ _)
  | case4 fuel t broken c cs _ _ ih => exact (ih h).trans (List.suffix_cons _ _)
  | case5 fuel t broken lineComment tail _ _ ih => exact hline (ih _ h)
  | case6 fuel t broken body text after hbody spans _ _ _ ih =>
    exact ((ih h).trans (suffix_blockBody? hbody)).trans ⟨['/', '*'], rfl⟩
  | case7 => cases h
  | case8 => cases h
  | case9 fuel t broken lineComment tail _ _ _ ih => exact hline (ih _ h)
  | case10 =>
    cases h
    exact List.suffix_rfl
  | case11 fuel t broken lineComment tail _ _ _ ih => exact hline (ih _ h)
  | case12 =>
    cases h
    exact List.suffix_rfl

end ScriptLoader.Syntax
