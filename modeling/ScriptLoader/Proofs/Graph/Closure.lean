import Mathlib.Data.List.Nodup
import ScriptLoader.Graph.Closure

/-!
# What a walk over a table visits

* `Closure.Reached`: the keys that are reached from others through entries of a table.
* `Closure.mem_visit_iff`: a walk visits these, each of them once (`Closure.nodup_visit`).
-/

namespace ScriptLoader.Closure

variable {κ : Type} [DecidableEq κ]

/-- The keys with an entry that are reached from some keys through keys with an entry. -/
inductive Reached (table : Keyed κ (List κ)) (start : List κ) : κ → Prop where
  | start {k : κ} {next : List κ} : k ∈ start → table.get? k = some next → Reached table start k
  | next {k j : κ} {next after : List κ} : Reached table start k → table.get? k = some next →
    j ∈ next → table.get? j = some after → Reached table start j

/-- What a walk from some keys keeps from one step to the next. -/
structure Walked (table : Keyed κ (List κ)) (start visited stack : List κ) : Prop where
  nodup : visited.Nodup
  reached : ∀ k ∈ visited, Reached table start k
  reachable : ∀ k ∈ stack, ∀ next, table.get? k = some next → Reached table start k
  begun : ∀ k ∈ start, ∀ next, table.get? k = some next → k ∈ visited ∨ k ∈ stack
  closed : ∀ k ∈ visited, ∀ next, table.get? k = some next → ∀ j ∈ next, ∀ after,
    table.get? j = some after → j ∈ visited ∨ j ∈ stack

namespace Walked

variable {table : Keyed κ (List κ)} {start visited rest : List κ} {k : κ}

theorem begin : Walked table start [] start :=
  ⟨.nil, by simp, fun _ hk _ hn => .start hk hn, fun _ hk _ _ => Or.inr hk, by simp⟩

theorem skip (h : Walked table start visited (k :: rest))
    (hk : ∀ next, table.get? k = some next → k ∈ visited) : Walked table start visited rest := by
  have out : ∀ j next, table.get? j = some next → j ∈ visited ∨ j ∈ k :: rest →
      j ∈ visited ∨ j ∈ rest := by
    rintro j next hj (hv | hs)
    · exact Or.inl hv
    · rcases List.mem_cons.1 hs with rfl | hs
      · exact Or.inl (hk next hj)
      · exact Or.inr hs
  exact ⟨h.nodup, h.reached, fun j hj => h.reachable j (List.mem_cons_of_mem _ hj),
    fun j hj next hn => out j next hn (h.begun j hj next hn),
    fun i hi next hn j hj after ha => out j after ha (h.closed i hi next hn j hj after ha)⟩

theorem visit {next : List κ} (h : Walked table start visited (k :: rest)) (hv : k ∉ visited)
    (hk : table.get? k = some next) :
    Walked table start (visited ++ [k]) (next.reverse ++ rest) := by
  have hreached : Reached table start k := h.reachable k List.mem_cons_self next hk
  have out : ∀ j, j ∈ visited ∨ j ∈ k :: rest → j ∈ visited ++ [k] ∨ j ∈ next.reverse ++ rest := by
    rintro j (hv | hs)
    · exact Or.inl (List.mem_append_left _ hv)
    · rcases List.mem_cons.1 hs with rfl | hs
      · exact Or.inl (by simp)
      · exact Or.inr (List.mem_append_right _ hs)
  refine ⟨?_, ?_, ?_, fun j hj after ha => out j (h.begun j hj after ha), ?_⟩
  · refine List.nodup_append.2 ⟨h.nodup, List.nodup_singleton _, ?_⟩
    rintro a ha b hb rfl
    exact hv (List.mem_singleton.1 hb ▸ ha)
  · intro j hj
    rcases List.mem_append.1 hj with hj | hj
    · exact h.reached j hj
    · exact List.mem_singleton.1 hj ▸ hreached
  · intro j hj after ha
    rcases List.mem_append.1 hj with hj | hj
    · exact .next hreached hk (List.mem_reverse.1 hj) ha
    · exact h.reachable j (List.mem_cons_of_mem _ hj) after ha
  · intro i hi after hia j hj later hja
    rcases List.mem_append.1 hi with hi | hi
    · exact out j (h.closed i hi after hia j hj later hja)
    · obtain rfl := List.mem_singleton.1 hi
      rw [hk] at hia
      cases hia
      exact Or.inr (List.mem_append_left _ (List.mem_reverse.2 hj))

end Walked

theorem walked_visit {table : Keyed κ (List κ)} {start visited stack : List κ}
    (h : Walked table start visited stack) :
    Walked table start (visit table visited stack) [] := by
  fun_induction visit table visited stack with
  | case1 visited => exact h
  | case2 visited k rest hv ih => exact ih (h.skip fun _ _ => by simpa using hv)
  | case3 visited k rest hv hk ih =>
    exact ih (h.skip fun next hn => by rw [hk] at hn; cases hn)
  | case4 visited k rest hv next hk ih => exact ih (h.visit (by simpa using hv) hk)

theorem nodup_visit (table : Keyed κ (List κ)) (start : List κ) : (visit table [] start).Nodup :=
  (walked_visit .begin).nodup

theorem mem_visit_iff {table : Keyed κ (List κ)} {start : List κ} {k : κ} :
    k ∈ visit table [] start ↔ Reached table start k := by
  have h : Walked table start (visit table [] start) [] := walked_visit .begin
  constructor
  · exact h.reached k
  · intro hk
    induction hk with
    | start hs hn => exact (h.begun _ hs _ hn).resolve_right (by simp)
    | next _ hn hj ha ih => exact (h.closed _ ih _ hn _ hj _ ha).resolve_right (by simp)

end ScriptLoader.Closure
