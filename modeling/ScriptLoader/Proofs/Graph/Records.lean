import Mathlib.Data.List.Nodup
import ScriptLoader.Graph.Basic

/-!
# The records of a graph

* `Graph.get?_insertAll`: what is found after records were inserted.
* `Graph.get?_of_mem`: a graph finds each of its records if it has one for each module.
* `Graph.Ready`: the generation of all code succeeds. A graph that is ready is waited for without a
  failure (`Graph.awaitCode_ok_iff`), and then has the records that it had (`Graph.get?_awaitCode`).
-/

namespace ScriptLoader

/-- A record whose code somebody has waited for. -/
def CompiledRecord.waited (r : CompiledRecord) : CompiledRecord := { r with awaited := true }

namespace Graph

/-! ## Inserting -/

theorem get?_insert (g : Graph) (r : CompiledRecord) (s : Specifier) :
    (g.insert r).get? s = (g.get? s).or (if r.specifier = s then some r else none) := by
  unfold insert
  split
  · next hc =>
    obtain ⟨q, hq⟩ := Option.isSome_iff_exists.1 hc
    split
    · next hs => rw [← hs, hq, Option.some_or]
    · rw [Option.or_none]
  · simp [get?, List.find?_append, List.find?_singleton]

theorem get?_insertAll (rs : List CompiledRecord) (g : Graph) (s : Specifier) :
    (rs.foldl insert g).get? s = (g.get? s).or (rs.find? fun r => r.specifier = s) := by
  induction rs generalizing g with
  | nil => simp
  | cons r rs ih =>
    rw [List.foldl_cons, ih, get?_insert, Option.or_assoc]
    congr 1
    by_cases hr : r.specifier = s <;> simp [hr]

theorem mem_records_insertAll {rs : List CompiledRecord} {g : Graph} {r : CompiledRecord}
    (h : r ∈ (rs.foldl insert g).records) : r ∈ g.records ∨ r ∈ rs := by
  induction rs generalizing g with
  | nil => exact Or.inl h
  | cons q rs ih =>
    rcases ih h with h | h
    · unfold insert at h
      split at h
      · exact Or.inl h
      · rcases List.mem_append.1 h with h | h
        · exact Or.inl h
        · exact Or.inr (List.mem_singleton.1 h ▸ List.mem_cons_self)
    · exact Or.inr (List.mem_cons_of_mem _ h)

/-- Records of modules that a graph lacks come behind its own. -/
theorem insertAll_of_fresh {rs : List CompiledRecord} {g : Graph}
    (hnodup : (rs.map (·.specifier)).Nodup) (hnew : ∀ r ∈ rs, r.specifier ∉ g.specifiers) :
    rs.foldl insert g = { g with records := g.records ++ rs } := by
  induction rs generalizing g with
  | nil => simp
  | cons r rs ih =>
    obtain ⟨hr, hrs⟩ := List.forall_mem_cons.1 hnew
    obtain ⟨hfirst, hnodup⟩ := List.nodup_cons.1 hnodup
    have hinsert : g.insert r = { g with records := g.records ++ [r] } :=
      if_neg fun hc => hr (contains_iff.1 hc)
    have hlater : ∀ q ∈ rs, q.specifier ∉ (g.insert r).specifiers := by
      intro q hq hmem
      rw [hinsert, specifiers, List.map_append, List.mem_append] at hmem
      rcases hmem with hmem | hmem
      · exact hrs q hq hmem
      · exact hfirst (List.mem_singleton.1 hmem ▸ List.mem_map_of_mem hq)
    rw [List.foldl_cons, ih hnodup hlater, hinsert]
    simp

theorem contains_insertAll {rs : List CompiledRecord} {g : Graph} {s : Specifier}
    (h : g.contains s = true) : (rs.foldl insert g).contains s = true := by
  unfold contains at h ⊢
  rw [get?_insertAll, Option.isSome_or, h, Bool.true_or]

/-! ## One record for each module -/

theorem nodup_insert {g : Graph} (h : g.specifiers.Nodup) (r : CompiledRecord) :
    (g.insert r).specifiers.Nodup := by
  unfold insert
  split
  · exact h
  · next hc =>
    have hr : r.specifier ∉ g.specifiers := fun hr => hc (contains_iff.2 hr)
    rw [specifiers, List.map_append, List.map_singleton]
    refine List.nodup_append.2 ⟨h, List.pairwise_singleton _ _, ?_⟩
    rintro s hs _ ht rfl
    exact hr (List.mem_singleton.1 ht ▸ hs)

theorem nodup_insertAll (rs : List CompiledRecord) {g : Graph} (h : g.specifiers.Nodup) :
    (rs.foldl insert g).specifiers.Nodup := by
  induction rs generalizing g with
  | nil => exact h
  | cons r rs ih => exact ih (nodup_insert h r)

theorem get?_of_mem {g : Graph} (h : g.specifiers.Nodup) {r : CompiledRecord}
    (hr : r ∈ g.records) : g.get? r.specifier = some r := by
  obtain ⟨q, hq⟩ := Option.isSome_iff_exists.1 (contains_iff.2 (List.mem_map_of_mem hr))
  have hname := specifier_of_get? hq
  rw [hq, List.inj_on_of_nodup_map h (mem_of_get? hq) hr hname]

/-! ## Waiting for code -/

/-- The generation of all code succeeds. -/
def Ready (g : Graph) : Prop := ∀ r ∈ g.records, ∃ code, r.outcome = .ok code

theorem awaitRecords_of_ok {rs : List CompiledRecord}
    (h : ∀ r ∈ rs, ∃ code, r.outcome = .ok code) :
    awaitRecords rs = (rs.map (·.waited), .ok ()) := by
  induction rs with
  | nil => rfl
  | cons r rs ih =>
    obtain ⟨code, hc⟩ := h r List.mem_cons_self
    simp [awaitRecords, hc, ih fun q hq => h q (List.mem_cons_of_mem _ hq), CompiledRecord.waited]

theorem ok_of_awaitRecords {rs : List CompiledRecord} (h : (awaitRecords rs).2 = .ok ()) :
    ∀ r ∈ rs, ∃ code, r.outcome = .ok code := by
  induction rs with
  | nil => simp
  | cons r rs ih =>
    unfold awaitRecords at h
    split at h
    · cases h
    · next code hc =>
      intro q hq
      rcases List.mem_cons.1 hq with rfl | hq
      · exact ⟨code, hc⟩
      · exact ih h q hq

theorem mem_awaitRecords {rs : List CompiledRecord} {r : CompiledRecord}
    (h : r ∈ (awaitRecords rs).1) : ∃ q ∈ rs, r = q ∨ r = q.waited := by
  induction rs with
  | nil => cases h
  | cons q rs ih =>
    unfold awaitRecords at h
    split at h
    · rcases List.mem_cons.1 h with rfl | h
      · exact ⟨q, List.mem_cons_self, Or.inr rfl⟩
      · exact ⟨r, List.mem_cons_of_mem _ h, Or.inl rfl⟩
    · rcases List.mem_cons.1 h with rfl | h
      · exact ⟨q, List.mem_cons_self, Or.inr rfl⟩
      · obtain ⟨p, hp, hr⟩ := ih h
        exact ⟨p, List.mem_cons_of_mem _ hp, hr⟩

theorem exists_of_awaitRecords {rs : List CompiledRecord} {e : LoadError}
    (h : (awaitRecords rs).2 = .error e) : ∃ r ∈ rs, r.outcome = .error e := by
  induction rs with
  | nil => cases h
  | cons r rs ih =>
    unfold awaitRecords at h
    split at h
    · next f hf =>
      cases h
      exact ⟨r, List.mem_cons_self, hf⟩
    · obtain ⟨q, hq, he⟩ := ih h
      exact ⟨q, List.mem_cons_of_mem _ hq, he⟩

theorem awaitCode_of_ready {g : Graph} (h : g.Ready) :
    g.awaitCode = ({ g with records := g.records.map (·.waited) }, .ok ()) := by
  simp [awaitCode, awaitRecords_of_ok h]

theorem awaitCode_ok_iff {g : Graph} : g.awaitCode.2 = .ok () ↔ g.Ready :=
  ⟨ok_of_awaitRecords, fun h => by rw [awaitCode_of_ready h]⟩

theorem get?_awaitCode {g : Graph} (h : g.Ready) (s : Specifier) :
    g.awaitCode.1.get? s = (g.get? s).map (·.waited) := by
  rw [awaitCode_of_ready h]
  unfold get?
  rw [List.find?_map]
  rfl

theorem contains_awaitCode {g : Graph} (h : g.Ready) (s : Specifier) :
    g.awaitCode.1.contains s = g.contains s := by
  simp [contains, get?_awaitCode h]

theorem readyCode?_of_awaitCode {g : Graph} (h : g.Ready) {r : CompiledRecord}
    (hr : r ∈ g.awaitCode.1.records) : ∃ code, r.outcome = .ok code ∧ r.readyCode? = some code := by
  rw [awaitCode_of_ready h] at hr
  obtain ⟨q, hq, rfl⟩ := List.mem_map.1 hr
  obtain ⟨code, hc⟩ := h q hq
  exact ⟨code, hc, by simp [CompiledRecord.readyCode?, CompiledRecord.waited, hc]⟩

end Graph

end ScriptLoader
