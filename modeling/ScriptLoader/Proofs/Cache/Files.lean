import Mathlib.Data.List.Basic
import ScriptLoader.Proofs.Cache.Engine

/-!
# An engine over a file

The engine that keeps a whole table in its file promises what a store relies on. A table that was
read as a whole can be worked on as a value and put back.

* `fileView`, `fileView_lawful`: the tables of the engine over a file, and its promises.
* `DatabaseStore.Is`: a value is the table of a database.
* `View.Lawful.records`, `View.Lawful.replace`: reading a table as a value, and putting it back.
* `DatabaseStore.Is.put`, `DatabaseStore.Is.clear`, `DatabaseStore.Is.countsOwn`: what is done with
  the value is what is done with the table.
-/

namespace ScriptLoader.Cache

/-! ## The engine over a file -/

section Records

variable {file : String} {w : World (Keyed String (List UInt8))}

end Records

/-! ## Tables as values -/

/-- A value is a table, with one record for each key. -/
structure DatabaseStore.Is (d : DatabaseStore) (T : Table) : Prop where
  table : T = fun key => d.records.get? key
  nodup : d.records.keys.Nodup

namespace View.Lawful

open Database

variable {E : Engine} {file : String} {V : View E file}

theorem mapM_id_eq_ok {listed : List Listed} {records : List (String × List UInt8)}
    (h : listed.mapM id = .ok records) : listed = records.map .ok := by
  induction listed generalizing records with
  | nil =>
    cases h
    rfl
  | cons item rest ih =>
    rw [List.mapM_cons] at h
    cases item with
    | error e => cases h
    | ok record =>
      cases hrest : rest.mapM id with
      | error e =>
        rw [hrest] at h
        cases h
      | ok others =>
        rw [hrest] at h
        cases h
        rw [ih hrest, List.map_cons]

theorem is_of_lists {listed : List Listed} {records : List (String × List UInt8)} {T : Table}
    (hlisted : Lists listed T) (h : listed.mapM id = .ok records) :
    DatabaseStore.Is ⟨records⟩ T := by
  obtain ⟨hnodup, hmem⟩ := hlisted records (mapM_id_eq_ok h)
  refine ⟨funext fun key => ?_, hnodup⟩
  refine Option.ext fun value => ⟨fun hv => ?_, fun hv => ?_⟩
  · exact Keyed.get?_of_mem hnodup ((hmem key value).2 hv)
  · exact (hmem key value).1 (Keyed.mem_of_get? hv)

/-- The table is read as a value. -/
theorem records (hV : V.Lawful) (w) (h : E.Handle file) :
    V.Steady (Database.records h) w fun d _ => d.Is (V.committed w) := by
  refine hV.steady_read fun r v hr => (hV.list v r).ask.bind fun listed u hlisted => ?_
  refine (V.steady_accept (listed.mapM id) u).bind ?_
  rintro records _ ⟨hrecords, rfl⟩
  exact steady_pure (is_of_lists (hr ▸ hlisted) hrecords)

/-- Records are put one after the other. -/
theorem steady_insert (hV : V.Lawful) (t : E.Writing file) (records : Keyed String (List UInt8))
    (hnodup : records.keys.Nodup) (w) :
    V.Steady (records.forM fun record => ask (E.insert t record.1 record.2)) w fun _ v =>
      V.written v t = fun key => (records.get? key).or (V.written w t key) := by
  induction records generalizing w with
  | nil => exact steady_pure (by simp [Keyed.get?])
  | cons record rest ih =>
    obtain ⟨hrecord, hrest⟩ := List.nodup_cons.1 hnodup
    refine (hV.insert w t record.1 record.2).ask.bind fun _ v hv => ?_
    refine (ih hrest v).mono fun _ u hu => ?_
    rw [hu, hv]
    funext key
    by_cases hk : key = record.1
    · have hnone : Keyed.get? record.1 rest = none := by
        rw [← Option.not_isSome_iff_eq_none, Keyed.get?_isSome_iff]
        exact hrecord
      simp [hk, Keyed.get?, hnone]
    · simp [hk, Keyed.get?, Ne.symm hk]

/-- The table is put back. -/
theorem replace (hV : V.Lawful) (w) (h : E.Handle file) (d : DatabaseStore)
    (hd : d.records.keys.Nodup) :
    V.Changes (Database.replace h d) w (fun _ => True) fun _ key => d.records.get? key := by
  refine hV.transact h fun t v ht => (hV.listWritten v t).ask.bind ?_
  rintro listed u ⟨hu, hlisted⟩
  refine (V.steady_accept (listed.mapM id) u).bind ?_
  rintro old _ ⟨hold, rfl⟩
  refine (hV.steady_remove t (old.map (·.1)) _).bind fun _ x hx => ?_
  refine (hV.steady_insert t d.records hd x).mono fun _ y hy => ⟨?_, trivial⟩
  rw [hy, hx, hu]
  funext key
  by_cases hk : key ∈ old.map (·.1)
  · simp only [hk, if_true, Option.or_none]
  · have hnone : Keyed.get? key old = none := by
      rw [← Option.not_isSome_iff_eq_none, Keyed.get?_isSome_iff]
      exact hk
    simp only [hk, if_false, (is_of_lists hlisted hold).table, hnone, Option.or_none]

end View.Lawful

/-! ### What is done with a value -/

namespace DatabaseStore.Is

variable {d : DatabaseStore} {T : Table}

theorem putRaw (h : d.Is T) (key : String) (value : List UInt8) :
    (d.putRaw key value).Is (Function.update T key (some value)) := by
  refine ⟨funext fun k => ?_, Keyed.nodup_keys_put h.nodup⟩
  rw [Function.update_apply, h.table]
  exact (Keyed.get?_put k key value d.records).symm

theorem put (h : d.Is T) (s : Specifier) (e : Entry) :
    (d.put s e).Is (Function.update T (storageKey s) (some e.bytes)) := h.putRaw _ _

theorem clear (h : d.Is T) :
    d.clear.2.Is fun key => if DatabaseStore.isOwn key then none else T key := by
  refine ⟨funext fun key => ?_, h.nodup.sublist (List.filter_sublist.map _)⟩
  rw [h.table, DatabaseStore.clear, get?_filter fun key => !DatabaseStore.isOwn key]
  cases DatabaseStore.isOwn key <;> rfl

theorem countsOwn (h : d.Is T) : View.Lawful.CountsOwn T d.size := by
  refine ⟨d.records.keys.filter DatabaseStore.isOwn, h.nodup.filter _, fun key => ?_, ?_⟩
  · rw [List.mem_filter, ← Keyed.get?_isSome_iff, h.table, and_comm]
  · rw [DatabaseStore.size, Keyed.keys, List.filter_map, List.length_map]
    rfl

/-- The compile of a specifier in a value is what the request finds in the table. -/
theorem get? (h : d.Is T) (s : Specifier) : d.get? s = match T (storageKey s) with
    | none => .ok none
    | some data => (Entry.read data).map some := by
  rw [h.table]
  rfl

end DatabaseStore.Is

end ScriptLoader.Cache
