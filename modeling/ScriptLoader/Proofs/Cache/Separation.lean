import ScriptLoader.Proofs.Text.Bytes

/-!
# What a checksum tells apart

The hashed bytes have a zero byte behind each name of the options, and no lengths. A name with a
zero character of its own can therefore end in two places: part of a name may as well belong to the
next name or to the source.

* `Checksum.spelled`: the characters whose bytes are hashed behind the switch for markup.
* `Checksum.content_eq_iff`: two sources under options are hashed alike exactly if their switches
  and these characters agree.
* `Checksum.content_determines`: options whose names have no zero characters, and the sources under
  them, are told apart. A source under options is told apart from everything else exactly if there
  is no zero character in it either.
-/

namespace ScriptLoader.Cache.Checksum

open Compile (Options)

variable {s t : String} {o p : Options}

/-! ## The hashed characters -/

/-- The names of options and a source, with a zero character behind each name. -/
def spelled (source : String) (o : Options) : List Char :=
  o.pragma.toList ++ '\x00' :: (o.fragment.toList ++ '\x00' :: source.toList)

theorem content_eq (source : String) (o : Options) : content source o =
    Digest.Blake3.wordBytes formatVersion ++ utf8 libraryVersion ++
      0 :: (if o.markup then 1 else 0) :: Text.bytes (spelled source o) := by
  have htexts : Text.bytes (spelled source o) =
      utf8 o.pragma ++ 0 :: (utf8 o.fragment ++ 0 :: utf8 source) := by
    simp only [spelled, utf8, Text.toUTF8_toList, Text.bytes_append, Text.bytes_zero_cons]
  rw [htexts, content, optionBytes]
  simp only [List.cons_append, List.append_assoc, List.nil_append]

/-- Sources under options are hashed alike exactly if the switches for markup agree, and the names
and sources one after the other. -/
theorem content_eq_iff :
    content s o = content t p ↔ o.markup = p.markup ∧ spelled s o = spelled t p := by
  have hswitch : (if o.markup then (1 : UInt8) else 0) = (if p.markup then 1 else 0) ↔
      o.markup = p.markup := by
    cases o.markup <;> cases p.markup <;> decide
  rw [content_eq, content_eq, List.append_cancel_left_eq, List.cons.injEq, List.cons.injEq, hswitch,
    Text.bytes_injective.eq_iff, and_iff_right rfl]

/-- Wherever the hashed characters are parted at two zero characters, there are options and a
source of these parts, and they are hashed alike. -/
theorem content_parted {x y z : List Char} (h : spelled s o = x ++ '\x00' :: (y ++ '\x00' :: z)) :
    content (String.ofList z)
      { o with pragma := String.ofList x, fragment := String.ofList y } = content s o := by
  refine content_eq_iff.2 ⟨rfl, ?_⟩
  simp only [spelled, String.toList_ofList]
  exact h.symm

/-! ## Names without zero characters -/

/-- The names that options give have no zero character. -/
structure ZeroFree (o : Options) : Prop where
  pragma : '\x00' ∉ o.pragma.toList
  fragment : '\x00' ∉ o.fragment.toList

/-- A text up to the first separator, and what stands behind it. -/
theorem append_separator_inj {sep : Char} {a b c d : List Char} (ha : sep ∉ a) (hb : sep ∉ b) :
    a ++ sep :: c = b ++ sep :: d ↔ a = b ∧ c = d := by
  constructor
  · intro h
    have hsplit := congrArg (Text.splitOn sep) h
    rw [Text.splitOn_append ha, Text.splitOn_append hb] at hsplit
    obtain rfl := (List.cons.inj hsplit).1
    exact ⟨rfl, (List.cons.inj (List.append_cancel_left h)).2⟩
  · rintro ⟨rfl, rfl⟩
    rfl

theorem content_inj (ho : ZeroFree o) (hp : ZeroFree p) :
    content s o = content t p ↔ s = t ∧ o = p := by
  constructor
  · intro h
    obtain ⟨hmarkup, hspelled⟩ := content_eq_iff.1 h
    obtain ⟨hpragma, hrest⟩ := (append_separator_inj ho.pragma hp.pragma).1 hspelled
    obtain ⟨hfragment, hsource⟩ := (append_separator_inj ho.fragment hp.fragment).1 hrest
    refine ⟨String.toList_injective hsource, ?_⟩
    obtain ⟨markup, pragma, fragment⟩ := o
    obtain rfl : markup = p.markup := hmarkup
    obtain rfl : pragma = p.pragma := String.toList_injective hpragma
    obtain rfl : fragment = p.fragment := String.toList_injective hfragment
    rfl
  · rintro ⟨rfl, rfl⟩
    rfl

/-! ## Nothing else is hashed alike -/

/-- A zero character in a name or in the source can stand for the end of a name. -/
theorem zeroFree_of_unique (h : ∀ t p, content t p = content s o → t = s ∧ p = o) :
    ZeroFree o ∧ '\x00' ∉ s.toList := by
  have hparts : ∀ x y z : List Char, spelled s o = x ++ '\x00' :: (y ++ '\x00' :: z) →
      x = o.pragma.toList ∧ y = o.fragment.toList := by
    intro x y z hxyz
    obtain ⟨-, ho⟩ := h _ _ (content_parted hxyz)
    constructor
    · rw [← congrArg Options.pragma ho, String.toList_ofList]
    · rw [← congrArg Options.fragment ho, String.toList_ofList]
  refine ⟨⟨fun hzero => ?_, fun hzero => ?_⟩, fun hzero => ?_⟩
  · obtain ⟨a, b, hab⟩ := List.append_of_mem hzero
    have hsame := (hparts a b (o.fragment.toList ++ '\x00' :: s.toList) (by
      simp only [spelled, hab, List.append_assoc, List.cons_append])).1
    rw [hab] at hsame
    simpa using congrArg List.length hsame
  · obtain ⟨a, b, hab⟩ := List.append_of_mem hzero
    have hsame := (hparts o.pragma.toList a (b ++ '\x00' :: s.toList) (by
      simp only [spelled, hab, List.append_assoc, List.cons_append])).2
    rw [hab] at hsame
    simpa using congrArg List.length hsame
  · obtain ⟨a, b, hab⟩ := List.append_of_mem hzero
    have hsame := (hparts (o.pragma.toList ++ '\x00' :: o.fragment.toList) a b (by
      simp only [spelled, hab, List.append_assoc, List.cons_append])).1
    simpa using congrArg List.length hsame

/-- Without zero characters the names end where they seem to. -/
theorem unique_of_zeroFree (ho : ZeroFree o) (hs : '\x00' ∉ s.toList)
    (h : content t p = content s o) : t = s ∧ p = o := by
  have hcount := congrArg (List.count '\x00') (content_eq_iff.1 h).2
  simp only [spelled, List.count_append, List.count_cons_self, List.count_eq_zero.2 ho.pragma,
    List.count_eq_zero.2 ho.fragment, List.count_eq_zero.2 hs] at hcount
  refine (content_inj ⟨List.count_eq_zero.1 ?_, List.count_eq_zero.1 ?_⟩ ho).1 h
  · omega
  · omega

/-! ## What is told apart -/

/-- The hashed bytes tell sources and options apart as long as the names of the options have no zero
characters; then two of them that differ have one checksum only if the hash collides. A source under
options shares its bytes with nothing else, whatever that is made of, exactly if neither it nor a
name has a zero character. -/
theorem content_determines (s : String) (o : Options) :
    (∀ t p, ZeroFree o → ZeroFree p → (content s o = content t p ↔ s = t ∧ o = p) ∧
      (compute s o = compute t p → (s = t ∧ o = p) ∨ content s o ≠ content t p ∧
        Digest.Blake3.hex (content s o) = Digest.Blake3.hex (content t p))) ∧
    ((∀ t p, content t p = content s o → t = s ∧ p = o) ↔ ZeroFree o ∧ '\x00' ∉ s.toList) := by
  refine ⟨fun t p ho hp => ⟨content_inj ho hp, fun h => ?_⟩, zeroFree_of_unique, ?_⟩
  · by_cases hsame : content s o = content t p
    · exact .inl ((content_inj ho hp).1 hsame)
    · exact .inr ⟨hsame, congrArg Checksum.hex h⟩
  · exact fun h _ _ => unique_of_zeroFree h.1 h.2

/-- A change of the switch is seen. Of a name that holds a zero character, what stands behind it can
as well stand in front of the next name. -/
theorem shifted_names_collide :
    (ZeroFree {} ∧ ZeroFree { markup := true } ∧
      content "a" {} ≠ content "a" { markup := true }) ∧
    content "a" { pragma := "h\x00F", fragment := "G" } =
      content "a" { pragma := "h", fragment := "F\x00G" } := by
  have hplain : ZeroFree {} := ⟨by decide, by decide⟩
  have hmarkup : ZeroFree { markup := true } := ⟨by decide, by decide⟩
  refine ⟨⟨hplain, hmarkup, fun h => ?_⟩, content_eq_iff.2 ⟨rfl, by decide⟩⟩
  have hsame := (((content_determines _ _).1 _ _ hplain hmarkup).1.1 h).2
  exact Bool.false_ne_true (congrArg Options.markup hsame)

end ScriptLoader.Cache.Checksum
