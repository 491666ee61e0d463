import ScriptLoader.Keyed

/-!
# Following dependencies

The keys of a table that can be reached from others, where the table names the successors of a key.
The walk goes to the last successor first and visits nothing twice; what has no entry is left out.

* `Closure.visit`: the keys in the order in which they are visited.
-/

namespace ScriptLoader.Closure

variable {κ : Type} [DecidableEq κ]

/-- Bounds how far a walk may go on: to each key that was not visited, and then to its
successors. -/
def ahead (visited : List κ) : Keyed κ (List κ) → Nat
  | [] => 0
  | (k, next) :: rest => (if visited.contains k then 0 else next.length + 1) + ahead visited rest

theorem ahead_append_le (visited : List κ) (k : κ) (table : Keyed κ (List κ)) :
    ahead (visited ++ [k]) table ≤ ahead visited table := by
  induction table with
  | nil => simp [ahead]
  | cons p rest ih =>
    obtain ⟨j, next⟩ := p
    have hj : visited.contains j = true → (visited ++ [k]).contains j = true := by
      simp only [List.contains_eq_mem, decide_eq_true_eq, List.mem_append]
      exact Or.inl
    simp only [ahead]
    by_cases hv : visited.contains j = true
    · simp only [hv, hj hv, if_true]
      omega
    · simp only [hv, Bool.false_eq_true, if_false]
      split <;> omega

/-- Visiting a key for the first time uses up its part of the bound. -/
theorem ahead_visit {table : Keyed κ (List κ)} {visited next : List κ} {k : κ}
    (hk : table.get? k = some next) (hv : visited.contains k = false) :
    ahead (visited ++ [k]) table + next.length < ahead visited table := by
  induction table with
  | nil => cases hk
  | cons p rest ih =>
    obtain ⟨j, after⟩ := p
    have hle := ahead_append_le visited k rest
    simp only [Keyed.get?] at hk
    simp only [ahead]
    by_cases hj : j = k
    · subst hj
      simp only [if_true, Option.some.injEq] at hk
      subst hk
      have hin : (visited ++ [j]).contains j = true := by simp
      simp only [hin, hv, if_true, Bool.false_eq_true, if_false]
      omega
    · rw [if_neg hj] at hk
      have hsame : (visited ++ [k]).contains j = visited.contains j := by simp [hj]
      have := ih hk
      rw [hsame]
      omega

/-- The keys that are reached from a stack of keys, behind those that were visited. -/
def visit (table : Keyed κ (List κ)) (visited : List κ) (stack : List κ) : List κ :=
  match stack with
  | [] => visited
  | k :: rest =>
    if visited.contains k then visit table visited rest
    else
      match _found : Keyed.get? k table with
      | none => visit table visited rest
      | some next => visit table (visited ++ [k]) (next.reverse ++ rest)
termination_by ahead visited table + stack.length
decreasing_by
  · simp
  · simp
  · have hv : ¬ visited.contains k = true := by assumption
    have := ahead_visit _found (by simpa using hv)
    simp only [List.length_append, List.length_reverse, List.length_cons]
    omega

end ScriptLoader.Closure
