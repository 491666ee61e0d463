import ScriptLoader.Specifier.Basic

/-!
# Extensions of locations

Only the last segment of a location has an extension: dots of directories do not count, and neither
does the one dot that a hidden file begins with.

* `extensionOf?_eq_some_iff`: when a location has an extension.
* `Specifier.explicitExtension?_eq_some_iff`: when a specifier is fetched without probing.
-/

namespace ScriptLoader

namespace Text

theorem joinWith_concat {sep : Char} {front : List (List Char)} (hne : front ≠ [])
    (last : List Char) : joinWith sep (front ++ [last]) = joinWith sep front ++ sep :: last := by
  induction front with
  | nil => exact absurd rfl hne
  | cons p front ih =>
    cases front with
    | nil => rfl
    | cons q front =>
      have hrest := ih (List.cons_ne_nil q front)
      simp only [List.cons_append, joinWith] at hrest ⊢
      rw [hrest]
      simp

/-- The last piece of a text, with nothing or a separator in front of it. -/
theorem exists_splitOn_eq_concat (sep : Char) (cs : List Char) :
    ∃ front last, splitOn sep cs = front ++ [last] ∧ sep ∉ last ∧
      (front = [] ∧ cs = last ∨ front ≠ [] ∧ cs = joinWith sep front ++ sep :: last) := by
  rcases List.eq_nil_or_concat (splitOn sep cs) with h | ⟨front, last, h⟩
  · exact absurd h (splitOn_ne_nil sep cs)
  · rw [List.concat_eq_append] at h
    have hlast : last ∈ splitOn sep cs := by simp [h]
    refine ⟨front, last, h, notMem_of_mem_splitOn hlast, ?_⟩
    have hcs : joinWith sep (front ++ [last]) = cs := h ▸ joinWith_splitOn sep cs
    by_cases hfront : front = []
    · exact .inl ⟨hfront, by rw [← hcs, hfront]; rfl⟩
    · exact .inr ⟨hfront, by rw [← hcs, joinWith_concat hfront]⟩

/-- What is put behind a text without a separator is put behind its last piece. -/
theorem splitOn_append_of_notMem {sep : Char} {more : List Char} (h : sep ∉ more)
    {cs : List Char} {front : List (List Char)} {last : List Char}
    (hcs : splitOn sep cs = front ++ [last]) :
    splitOn sep (cs ++ more) = front ++ [last ++ more] := by
  obtain ⟨front', last', hsplit, hlast, hparts⟩ := exists_splitOn_eq_concat sep cs
  obtain ⟨rfl, hlasts⟩ := List.append_inj' (hsplit.symm.trans hcs) rfl
  obtain rfl : last' = last := by simpa using hlasts
  have hmore : splitOn sep (last' ++ more) = [last' ++ more] :=
    splitOn_of_notMem (by simp [hlast, h])
  rcases hparts with ⟨rfl, rfl⟩ | ⟨hne, rfl⟩
  · exact hmore
  · rw [splitOn_append_cons] at hsplit
    rw [List.append_assoc, List.cons_append, splitOn_append_cons, hmore]
    rw [splitOn_of_notMem hlast] at hsplit
    rw [(List.append_inj' hsplit rfl).1]

end Text

theorem splitLastDot?_eq_some_iff {name stem ext : List Char} :
    splitLastDot? name = some (stem, ext) ↔ name = stem ++ '.' :: ext ∧ '.' ∉ ext := by
  constructor
  · intro h
    unfold splitLastDot? at h
    split at h
    · next e s rest hsplit =>
      obtain ⟨rfl, rfl⟩ := Prod.mk.inj (Option.some.inj h)
      have hparts : Text.splitOn '.' name = (s :: rest).reverse ++ [e] := by
        rw [← List.reverse_reverse (Text.splitOn '.' name), hsplit, List.reverse_cons]
      have hlast : e ∈ Text.splitOn '.' name := by simp [hparts]
      refine ⟨?_, Text.notMem_of_mem_splitOn hlast⟩
      rw [← Text.joinWith_concat (by simp), ← hparts, Text.joinWith_splitOn]
    · cases h
  · rintro ⟨rfl, hext⟩
    obtain ⟨last, rest, hrest⟩ := List.exists_cons_of_ne_nil
      (show (Text.splitOn '.' stem).reverse ≠ [] by simp [Text.splitOn_ne_nil])
    have hsplit : (Text.splitOn '.' (stem ++ '.' :: ext)).reverse = ext :: last :: rest := by
      rw [Text.splitOn_append_cons, Text.splitOn_of_notMem hext, List.reverse_append, hrest]
      rfl
    rw [splitLastDot?, hsplit]
    simp only [← hrest, List.reverse_reverse, Text.joinWith_splitOn]

/-- The extension is what stands behind the last dot, in a last segment that does not begin with
that dot. -/
theorem extensionOf?_eq_some_iff {location ext : List Char} :
    extensionOf? location = some ext ↔ ∃ stem, location = stem ++ '.' :: ext ∧
      stem ≠ [] ∧ stem.getLast? ≠ some '/' ∧ ext ≠ [] ∧ '.' ∉ ext ∧ '/' ∉ ext := by
  have hfile : ∀ {front last cs}, Text.splitOn '/' cs = front ++ [last] → fileName cs = last := by
    intro front last cs h
    rw [fileName, h, List.getLast?_concat]
    rfl
  constructor
  · intro h
    obtain ⟨front, last, hsplit, hslash, hparts⟩ := Text.exists_splitOn_eq_concat '/' location
    rw [extensionOf?, hfile hsplit] at h
    split at h
    · next stem e hdot =>
      obtain ⟨rfl, hext⟩ := splitLastDot?_eq_some_iff.1 hdot
      split at h
      · cases h
      · next hne =>
        obtain rfl := Option.some.inj h
        obtain ⟨hstem, he⟩ := not_or.1 hne
        simp only [List.mem_append, List.mem_cons, not_or] at hslash
        have hlast : ∀ p : List Char, (p ++ stem).getLast? ≠ some '/' := by
          intro p hp
          rw [List.getLast?_append, List.getLast?_eq_some_getLast hstem] at hp
          exact hslash.1 (Option.some.inj hp ▸ List.getLast_mem hstem)
        rcases hparts with ⟨-, rfl⟩ | ⟨-, rfl⟩
        · exact ⟨stem, rfl, hstem, hlast [], he, hext, hslash.2.2⟩
        · refine ⟨Text.joinWith '/' front ++ '/' :: stem, by simp, by simp, ?_, he, hext,
            hslash.2.2⟩
          rw [← List.singleton_append, ← List.append_assoc]
          exact hlast _
    · cases h
  · rintro ⟨stem, rfl, hne, hlast, he, hext, hslash⟩
    obtain ⟨front, last, hsplit, -, hparts⟩ := Text.exists_splitOn_eq_concat '/' stem
    have hstem : last ≠ [] := by
      rintro rfl
      rcases hparts with ⟨-, rfl⟩ | ⟨-, rfl⟩
      · exact hne rfl
      · exact hlast (by simp)
    have hname : Text.splitOn '/' (stem ++ '.' :: ext) = front ++ [last ++ '.' :: ext] :=
      Text.splitOn_append_of_notMem (by simp [hslash]) hsplit
    rw [extensionOf?, hfile hname, splitLastDot?_eq_some_iff.2 ⟨rfl, hext⟩]
    simp [hstem, he]

/-- A specifier is fetched without probing exactly if a name in front of the last dot and one of four
extensions behind it end it. -/
theorem Specifier.explicitExtension?_eq_some_iff {s : Specifier} {ext : String} :
    s.explicitExtension? = some ext ↔ ext ∈ Specifier.explicitExtensions ∧
      ∃ stem, s.text.toList = stem ++ '.' :: ext.toList ∧
        stem ≠ [] ∧ stem.getLast? ≠ some '/' := by
  have hplain : ext ∈ explicitExtensions →
      ext.toList ≠ [] ∧ '.' ∉ ext.toList ∧ '/' ∉ ext.toList := by
    intro hext
    simp only [explicitExtensions, List.mem_cons, List.not_mem_nil, or_false] at hext
    rcases hext with rfl | rfl | rfl | rfl <;> decide
  constructor
  · intro h
    unfold explicitExtension? at h
    split at h
    · next e he =>
      obtain ⟨stem, htext, hne, hlast, -⟩ := extensionOf?_eq_some_iff.1 he
      dsimp only at h
      split at h
      · next hmem =>
        obtain rfl := Option.some.inj h
        exact ⟨by simpa using hmem, stem, by simpa using htext, hne, hlast⟩
      · cases h
    · cases h
  · rintro ⟨hext, stem, htext, hne, hlast⟩
    obtain ⟨he, hdot, hslash⟩ := hplain hext
    rw [explicitExtension?, extensionOf?_eq_some_iff.2 ⟨stem, htext, hne, hlast, he, hdot, hslash⟩]
    simp [hext]

end ScriptLoader
