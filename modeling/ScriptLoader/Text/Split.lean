/-!
# Splitting text at a character

Paths, environment names and lines are all lists of pieces between separators.

* `joinWith_splitOn`: joining the pieces with the separator gives the text back.
* `splitOn_joinWith`: splitting a joined, non-empty list of separator-free pieces gives the list.
* `dropFront?_eq_some_iff`: what is left behind a text at the front.
* `contains_iff`: a text that occurs in another one.
-/

namespace ScriptLoader.Text

/-- The pieces between the occurrences of `sep`; one more than there are occurrences. -/
def splitOn (sep : Char) : List Char → List (List Char)
  | [] => [[]]
  | c :: cs =>
    if c = sep then [] :: splitOn sep cs
    else
      match splitOn sep cs with
      | [] => [[c]]
      | p :: ps => (c :: p) :: ps

/-- The pieces, with `sep` between any two neighbours. -/
def joinWith (sep : Char) : List (List Char) → List Char
  | [] => []
  | [p] => p
  | p :: q :: ps => p ++ sep :: joinWith sep (q :: ps)

theorem splitOn_ne_nil (sep : Char) (cs : List Char) : splitOn sep cs ≠ [] := by
  cases cs with
  | nil => simp [splitOn]
  | cons c cs =>
    simp only [splitOn]
    split
    · simp
    · split <;> simp

theorem joinWith_cons_cons (sep c : Char) (p : List Char) (ps : List (List Char)) :
    joinWith sep ((c :: p) :: ps) = c :: joinWith sep (p :: ps) := by
  cases ps <;> simp [joinWith]

theorem joinWith_splitOn (sep : Char) (cs : List Char) : joinWith sep (splitOn sep cs) = cs := by
  induction cs with
  | nil => rfl
  | cons c cs ih =>
    simp only [splitOn]
    by_cases h : c = sep
    · subst h
      rw [if_pos rfl]
      cases hs : splitOn c cs with
      | nil => exact absurd hs (splitOn_ne_nil c cs)
      | cons p ps => rw [hs] at ih; simp [joinWith, ih]
    · rw [if_neg h]
      cases hs : splitOn sep cs with
      | nil => exact absurd hs (splitOn_ne_nil sep cs)
      | cons p ps => rw [hs] at ih; simp [joinWith_cons_cons, ih]

theorem splitOn_of_notMem {sep : Char} {p : List Char} (h : sep ∉ p) : splitOn sep p = [p] := by
  induction p with
  | nil => rfl
  | cons c p ih =>
    rw [List.mem_cons, not_or] at h
    simp [splitOn, ih h.2, Ne.symm h.1]

theorem splitOn_append {sep : Char} {p : List Char} (h : sep ∉ p) (cs : List Char) :
    splitOn sep (p ++ sep :: cs) = p :: splitOn sep cs := by
  induction p with
  | nil => simp [splitOn]
  | cons c p ih =>
    rw [List.mem_cons, not_or] at h
    simp [splitOn, ih h.2, Ne.symm h.1]

/-- A separator ends the pieces before it. -/
theorem splitOn_append_cons (sep : Char) (cs ds : List Char) :
    splitOn sep (cs ++ sep :: ds) = splitOn sep cs ++ splitOn sep ds := by
  induction cs with
  | nil => simp [splitOn]
  | cons c cs ih =>
    rw [List.cons_append, splitOn, splitOn, ih]
    split
    · rfl
    · cases hs : splitOn sep cs with
      | nil => exact absurd hs (splitOn_ne_nil sep cs)
      | cons p ps => rfl

theorem splitOn_concat (sep : Char) (cs : List Char) :
    splitOn sep (cs ++ [sep]) = splitOn sep cs ++ [[]] := splitOn_append_cons sep cs []

theorem splitOn_joinWith {sep : Char} {ps : List (List Char)} (hne : ps ≠ [])
    (h : ∀ p ∈ ps, sep ∉ p) : splitOn sep (joinWith sep ps) = ps := by
  induction ps with
  | nil => exact absurd rfl hne
  | cons p ps ih =>
    cases ps with
    | nil => exact splitOn_of_notMem (h p (by simp))
    | cons q ps =>
      rw [joinWith, splitOn_append (h p (by simp)),
        ih (by simp) (fun r hr => h r (List.mem_cons_of_mem _ hr))]

theorem notMem_of_mem_splitOn {sep : Char} {cs p : List Char} (h : p ∈ splitOn sep cs) :
    sep ∉ p := by
  induction cs generalizing p with
  | nil => simp_all [splitOn]
  | cons c cs ih =>
    rw [splitOn] at h
    split at h
    · rcases List.mem_cons.1 h with rfl | h
      · exact List.not_mem_nil
      · exact ih h
    · next hc =>
      split at h
      · next hs => exact absurd hs (splitOn_ne_nil sep cs)
      · next q qs hs =>
        rw [hs] at ih
        rcases List.mem_cons.1 h with rfl | h
        · rw [List.mem_cons, not_or]
          exact ⟨fun heq => hc heq.symm, ih List.mem_cons_self⟩
        · exact ih (List.mem_cons_of_mem _ h)

/-- Drops one carriage return at the end. -/
def dropReturn (line : List Char) : List Char :=
  if line.getLast? = some '\r' then line.dropLast else line

/-- The lines of a text: pieces between line feeds without the carriage return before the feed;
an empty piece after the last feed is no line. -/
def lines (cs : List Char) : List (List Char) :=
  let ps := splitOn '\n' cs
  match ps.getLast? with
  | some [] => ps.dropLast.map dropReturn
  | some last => ps.dropLast.map dropReturn ++ [last]
  | none => []

/-- `splitOn` on strings. -/
def splitText (sep : Char) (s : String) : List String :=
  (splitOn sep s.toList).map String.ofList

/-- Whether `p` occurs at the front; then the rest. -/
def dropFront? : List Char → List Char → Option (List Char)
  | [], cs => some cs
  | _ :: _, [] => none
  | p :: ps, c :: cs => if p = c then dropFront? ps cs else none

theorem dropFront?_eq_some_iff {p cs rest : List Char} :
    dropFront? p cs = some rest ↔ cs = p ++ rest := by
  induction p generalizing cs with
  | nil => simp [dropFront?]
  | cons c p ih =>
    cases cs with
    | nil => simp [dropFront?]
    | cons d cs =>
      rw [dropFront?]
      split
      · next h => simp [ih, h]
      · next h =>
        simp only [reduceCtorEq, List.cons_append, List.cons.injEq, false_iff, not_and]
        exact fun heq => absurd heq.symm h

/-- The text before and after the first occurrence of `p`. -/
def splitFirst? (p : List Char) : List Char → Option (List Char × List Char)
  | [] => if p = [] then some ([], []) else none
  | c :: cs =>
    match dropFront? p (c :: cs) with
    | some rest => some ([], rest)
    | none => (splitFirst? p cs).map fun (a, b) => (c :: a, b)

/-- Whether `p` occurs anywhere. -/
def contains (p cs : List Char) : Bool := (splitFirst? p cs).isSome

theorem contains_iff {p cs : List Char} : contains p cs = true ↔ p <:+: cs := by
  unfold contains
  induction cs with
  | nil => by_cases hp : p = [] <;> simp [splitFirst?, hp]
  | cons c cs ih =>
    rw [splitFirst?, List.infix_cons_iff, ← ih]
    cases hfront : dropFront? p (c :: cs) with
    | some rest =>
      have hbegins : p <+: c :: cs := ⟨rest, (dropFront?_eq_some_iff.1 hfront).symm⟩
      simp [hbegins]
    | none =>
      have hbegins : ¬ p <+: c :: cs := by
        rintro ⟨rest, hrest⟩
        rw [dropFront?_eq_some_iff.2 hrest.symm] at hfront
        cases hfront
      simp [hbegins]

/-- `dropFront?` on strings. -/
def stripFront? (p s : String) : Option String :=
  (dropFront? p.toList s.toList).map String.ofList

/-- Whether the string begins with `p`. -/
def startsWith (p s : String) : Bool := (dropFront? p.toList s.toList).isSome

end ScriptLoader.Text
