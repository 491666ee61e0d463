/-!
# Values under keys, in the order of insertion

A list of pairs with one pair for each key. Putting a value under a key that is there replaces the
value and keeps the place.

* `get?_put`: what is found after a value was put.
* `keys_put`: the keys after a value was put.
* `get?_erase`: what is found after a key was removed.
-/

namespace ScriptLoader

/-- Values under keys, in the order of insertion. -/
abbrev Keyed (κ α : Type) := List (κ × α)

namespace Keyed

variable {κ α β : Type} [DecidableEq κ]

def keys (t : Keyed κ α) : List κ := t.map (·.1)

def get? (k : κ) : Keyed κ α → Option α
  | [] => none
  | (j, v) :: rest => if j = k then some v else get? k rest

def has (k : κ) (t : Keyed κ α) : Bool := (get? k t).isSome

/-- Puts a value under a key. -/
def put (k : κ) (v : α) : Keyed κ α → Keyed κ α
  | [] => [(k, v)]
  | (j, w) :: rest => if j = k then (j, v) :: rest else (j, w) :: put k v rest

/-- Removes a key. -/
def erase (k : κ) (t : Keyed κ α) : Keyed κ α := t.filter fun p => p.1 ≠ k

/-- Puts values under keys, one after the other. -/
def putAll (items : List (κ × α)) (t : Keyed κ α) : Keyed κ α :=
  items.foldl (fun t (k, v) => put k v t) t

theorem get?_put (j k : κ) (v : α) (t : Keyed κ α) :
    get? j (put k v t) = if j = k then some v else get? j t := by
  induction t with
  | nil => simp [put, get?, eq_comm]
  | cons p rest ih =>
    obtain ⟨i, w⟩ := p
    by_cases hi : i = k
    · subst hi
      by_cases hj : i = j
      · simp [put, get?, hj]
      · simp [put, get?, hj, Ne.symm hj]
    · by_cases hj : i = j
      · subst hj
        simp [put, get?, hi]
      · simp [put, get?, hi, hj, ih]

theorem mem_of_get? {k : κ} {v : α} {t : Keyed κ α} (h : get? k t = some v) : (k, v) ∈ t := by
  induction t with
  | nil => cases h
  | cons p rest ih =>
    obtain ⟨j, w⟩ := p
    unfold get? at h
    split at h
    · next hj =>
      cases h
      exact hj ▸ List.mem_cons_self
    · exact List.mem_cons_of_mem _ (ih h)

theorem get?_of_mem {k : κ} {v : α} {t : Keyed κ α} (h : (keys t).Nodup) (hm : (k, v) ∈ t) :
    get? k t = some v := by
  induction t with
  | nil => cases hm
  | cons p rest ih =>
    obtain ⟨hp, hrest⟩ := List.nodup_cons.1 h
    obtain rfl | hm := List.mem_cons.1 hm
    · exact if_pos rfl
    · have hne : ¬ p.1 = k := by
        rintro rfl
        exact hp (List.mem_map.2 ⟨_, hm, rfl⟩)
      rw [get?, if_neg hne, ih hrest hm]

theorem get?_isSome_iff {k : κ} {t : Keyed κ α} : (get? k t).isSome ↔ k ∈ keys t := by
  induction t with
  | nil => simp [get?, keys]
  | cons p rest ih =>
    obtain ⟨i, w⟩ := p
    by_cases hi : i = k
    · simp [get?, keys, hi]
    · simp only [get?, hi, if_false, ih]
      simp [keys, Ne.symm hi]

theorem keys_put (k : κ) (v : α) (t : Keyed κ α) :
    keys (put k v t) = if k ∈ keys t then keys t else keys t ++ [k] := by
  induction t with
  | nil => simp [put, keys]
  | cons p rest ih =>
    obtain ⟨i, w⟩ := p
    by_cases hi : i = k
    · subst hi
      simp [put, keys]
    · have hk : ¬ k = i := fun h => hi h.symm
      simp only [put, hi, if_false]
      change i :: keys (put k v rest) = _
      rw [ih]
      by_cases hm : k ∈ keys rest
      · have : k ∈ keys ((i, w) :: rest) := by simp [keys] at hm ⊢; exact Or.inr hm
        simp [hm, this]
        rfl
      · have : ¬ k ∈ keys ((i, w) :: rest) := by
          simp [keys] at hm ⊢
          exact ⟨hk, hm⟩
        simp [hm, this]
        rfl

theorem nodup_keys_put {k : κ} {v : α} {t : Keyed κ α} (h : (keys t).Nodup) :
    (keys (put k v t)).Nodup := by
  rw [keys_put]
  split
  · exact h
  · next hk =>
    refine List.nodup_append.2 ⟨h, by simp, ?_⟩
    rintro a ha b hb rfl
    exact hk (List.mem_singleton.1 hb ▸ ha)

theorem get?_erase (j k : κ) (t : Keyed κ α) :
    get? j (erase k t) = if j = k then none else get? j t := by
  unfold erase
  induction t with
  | nil => simp [get?]
  | cons p rest ih =>
    obtain ⟨i, w⟩ := p
    by_cases hi : i = k
    · subst hi
      simp only [ne_eq, not_true_eq_false, decide_false, Bool.false_eq_true, not_false_eq_true,
        List.filter_cons_of_neg, ih, get?]
      split
      · rfl
      · next hj => rw [if_neg fun h => hj h.symm]
    · rw [List.filter_cons_of_pos (by simpa using hi)]
      simp only [get?, ih]
      split
      · next hij => rw [if_neg (hij ▸ hi)]
      · rfl

theorem nodup_keys_erase {k : κ} {t : Keyed κ α} (h : (keys t).Nodup) :
    (keys (erase k t)).Nodup := h.sublist (List.filter_sublist.map _)

end Keyed

end ScriptLoader
