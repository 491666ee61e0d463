import Mathlib.Logic.Function.Basic
import ScriptLoader.Cache.Database
import ScriptLoader.Proofs.Cache.Store
import ScriptLoader.Proofs.Disk.Extends

/-!
# What a store relies on

An engine is known by what it promises of the table in a file: what was committed stays until the
next commit, also when the file is closed and opened again; a transaction begins with what is
committed and sees its own changes; a commit that fails has happened as a whole or not at all. Any
request can fail, and no directory goes.

* `Yields`: what an action that can fail comes to.
* `View`, `View.Lawful`: the table as it is seen, and the promises.
* `View.Keeps`: a request changes nothing that is committed.
* `Lawful.transact`: a transaction is done as a whole or not at all.
* `Lawful.putRaw`, `Lawful.get`, `Lawful.clear`, `Lawful.size`, `Lawful.open`: what the requests of
  a store come to.
-/

namespace ScriptLoader.Cache

/-! ## Actions that can fail -/

section Yields

variable {ε σ α β : Type} {a : ExceptT ε (StateM σ) α} {x : σ} {good mid : α → σ → Prop}
  {bad : ε → σ → Prop}

/-- An action comes to a value and a state as are wanted, or to an error and a state as are put up
with. -/
def Yields (a : ExceptT ε (StateM σ) α) (x : σ) (good : α → σ → Prop) (bad : ε → σ → Prop) :
    Prop :=
  match a.run.run x with
  | (.ok r, y) => good r y
  | (.error e, y) => bad e y

theorem yields_pure {r : α} (h : good r x) : Yields (pure r : ExceptT ε (StateM σ) α) x good bad :=
  h

theorem yields_throw {e : ε} (h : bad e x) :
    Yields (throw e : ExceptT ε (StateM σ) α) x good bad := h

theorem yields_lift {m : StateM σ α} (h : good (m.run x).1 (m.run x).2) :
    Yields (liftM m : ExceptT ε (StateM σ) α) x good bad := h

theorem yields_get {f : σ → ExceptT ε (StateM σ) α} (h : Yields (f x) x good bad) :
    Yields (get >>= f) x good bad := h

theorem Yields.mono {good' : α → σ → Prop} {bad' : ε → σ → Prop} (h : Yields a x good bad)
    (hgood : ∀ r y, good r y → good' r y) (hbad : ∀ e y, bad e y → bad' e y) :
    Yields a x good' bad' := by
  unfold Yields at h ⊢
  split
  · next r y hr =>
    rw [hr] at h
    exact hgood r y h
  · next e y he =>
    rw [he] at h
    exact hbad e y h

theorem Yields.bind {f : α → ExceptT ε (StateM σ) β} {goal : β → σ → Prop}
    (h : Yields a x mid bad) (hf : ∀ r y, mid r y → Yields (f r) y goal bad) :
    Yields (a >>= f) x goal bad := by
  have hbind : (a >>= f).run.run x = match a.run.run x with
      | (.ok r, y) => (f r).run.run y
      | (.error e, y) => (.error e, y) := by
    rw [ExceptT.run_bind, StateT.run_bind]
    rcases a.run.run x with ⟨e | r, y⟩ <;> rfl
  unfold Yields at h
  rw [Yields, hbind]
  split at h
  · next r y hr => exact hf r y h
  · next e y he => exact h

theorem Yields.tryCatch {f : ε → ExceptT ε (StateM σ) α} {caught : ε → σ → Prop}
    (h : Yields a x good caught) (hf : ∀ e y, caught e y → Yields (f e) y good bad) :
    Yields (MonadExcept.tryCatch a f) x good bad := by
  have hcatch : (MonadExcept.tryCatch a f).run.run x = match a.run.run x with
      | (.ok r, y) => (.ok r, y)
      | (.error e, y) => (f e).run.run y := by
    rw [ExceptT.run_tryCatch, StateT.run_bind]
    rcases a.run.run x with ⟨e | r, y⟩ <;> rfl
  unfold Yields at h
  rw [Yields, hcatch]
  split at h
  · exact h
  · next e y he => exact hf e y h

end Yields

/-! ## Promises -/

/-- Values under keys. -/
abbrev Table := String → Option (List UInt8)

/-- What is listed, if all of it can be read, are the records of a table, each of them once. -/
def Lists (listed : List Listed) (T : Table) : Prop :=
  ∀ records : List (String × List UInt8), listed = records.map .ok →
    (records.map (·.1)).Nodup ∧ ∀ key value, (key, value) ∈ records ↔ T key = some value

/-- The table in a file, as it is seen from outside of transactions and from within. -/
structure View (E : Engine) (file : String) where
  /-- What was committed last. -/
  committed : World E.Memory → Table
  /-- The table with the changes of a transaction. -/
  written : World E.Memory → E.Writing file → Table
  /-- The table of a transaction that reads. -/
  read : World E.Memory → E.Reading file → Table

namespace View

variable {E : Engine} {file : String} {V : View E file} {α β : Type}

/-- All directories and what was committed are still there. -/
structure Keeps (V : View E file) (w v : World E.Memory) : Prop where
  directories : w.disk.Extends v.disk
  committed : V.committed v = V.committed w

theorem Keeps.refl (w : World E.Memory) : V.Keeps w w := ⟨.refl, rfl⟩

theorem Keeps.trans {u v w : World E.Memory} (h : V.Keeps u v) (hv : V.Keeps v w) : V.Keeps u w :=
  ⟨h.directories.trans hv.directories, hv.committed.trans h.committed⟩

/-- A request keeps what was committed, whether it fails or not. -/
def Asks (V : View E file) (a : EngineAction E.Memory α) (w : World E.Memory)
    (good : α → World E.Memory → Prop) : Prop :=
  Yields a w (fun r v => V.Keeps w v ∧ good r v) fun _ v => V.Keeps w v

/-- What the engine of a database with transactions promises of one file. -/
structure Lawful (V : View E file) : Prop where
  /-- Opening a file finds what was committed, and an empty table in a new file. -/
  create (w) : V.Asks (E.create file) w fun _ _ => True
  /-- What was committed is durable. -/
  close (w) (h : E.Handle file) : V.Keeps w ((E.close h).run w).2
  /-- A transaction begins with what is committed. -/
  beginWrite (w) (h : E.Handle file) :
    V.Asks (E.beginWrite h) w fun t v => V.written v t = V.committed w
  openTable (w) (t : E.Writing file) :
    V.Asks (E.openTable t) w fun _ v => V.written v t = V.written w t
  /-- A change is seen in its transaction, and by nobody else. -/
  insert (w) (t : E.Writing file) (key value) : V.Asks (E.insert t key value) w fun _ v =>
    V.written v t = Function.update (V.written w t) key (some value)
  remove (w) (t : E.Writing file) (key) : V.Asks (E.remove t key) w fun _ v =>
    V.written v t = Function.update (V.written w t) key none
  listWritten (w) (t : E.Writing file) : V.Asks (E.listWritten t) w fun listed v =>
    V.written v t = V.written w t ∧ Lists listed (V.written w t)
  /-- A commit is done as a whole. One that fails has happened as a whole or not at all. -/
  commit (w) (t : E.Writing file) : Yields (E.commit t) w
    (fun _ v => w.disk.Extends v.disk ∧ V.committed v = V.written w t)
    fun _ v => w.disk.Extends v.disk ∧
      (V.committed v = V.committed w ∨ V.committed v = V.written w t)
  abort (w) (t : E.Writing file) : V.Keeps w ((E.abort t).run w).2
  /-- A transaction reads what is committed when it begins. -/
  beginRead (w) (h : E.Handle file) :
    V.Asks (E.beginRead h) w fun r v => V.read v r = V.committed w
  openRead (w) (r : E.Reading file) : V.Asks (E.openRead r) w fun _ v => V.read v r = V.read w r
  lookUp (w) (r : E.Reading file) (key) : V.Asks (E.lookUp r key) w fun x _ => x = V.read w r key
  list (w) (r : E.Reading file) : V.Asks (E.list r) w fun listed _ => Lists listed (V.read w r)

end View

/-! ## Requests of a store -/

/-- An error of the disk or of the engine, and not of what was stored. -/
def Fault.OfStorage : Fault → Prop
  | .unreadable _ => False
  | .directory _ | .database _ => True

namespace View

open Database

variable {E : Engine} {file : String} {V : View E file} {α β : Type} {w : World E.Memory}
  {good mid : α → World E.Memory → Prop}

/-- A part of a request keeps what was committed. If it fails, then for a reason of storage. -/
def Steady (V : View E file) (a : Database.Action E α) (w : World E.Memory)
    (good : α → World E.Memory → Prop) : Prop :=
  Yields a w (fun r v => V.Keeps w v ∧ good r v) fun f v => f.OfStorage ∧ V.Keeps w v

theorem Steady.bind {a : Database.Action E α} {f : α → Database.Action E β}
    {goal : β → World E.Memory → Prop} (h : V.Steady a w mid)
    (hf : ∀ r v, mid r v → V.Steady (f r) v goal) : V.Steady (a >>= f) w goal := by
  refine Yields.bind h fun r v hr => (hf r v hr.2).mono ?_ ?_
  · exact fun x u hx => ⟨hr.1.trans hx.1, hx.2⟩
  · exact fun g u hg => ⟨hg.1, hr.1.trans hg.2⟩

theorem Steady.mono {a : Database.Action E α} (h : V.Steady a w mid)
    (hgood : ∀ r v, mid r v → good r v) : V.Steady a w good :=
  Yields.mono h (fun r v hr => ⟨hr.1, hgood r v hr.2⟩) fun _ _ hf => hf

theorem steady_pure {r : α} (h : good r w) : V.Steady (pure r) w good :=
  yields_pure ⟨.refl w, h⟩

theorem yields_ask {a : EngineAction E.Memory α} {bad : World E.Memory → Prop}
    (h : Yields a w good fun _ => bad) :
    Yields (ask a : Database.Action E α) w good fun f v => f.OfStorage ∧ bad v := by
  have hask : (ask a : Database.Action E α).run.run w =
      ((a.run.run w).1.mapError Fault.database, (a.run.run w).2) := rfl
  unfold Yields at h ⊢
  rw [hask]
  split at h
  · next r v hr =>
    rw [hr]
    exact h
  · next e v he =>
    rw [he]
    exact ⟨trivial, h⟩

theorem Asks.ask {a : EngineAction E.Memory α} (h : V.Asks a w good) : V.Steady (ask a) w good :=
  yields_ask h

theorem steady_accept (V : View E file) (r : Except String α) (w : World E.Memory) :
    V.Steady (accept r) w fun x v => r = .ok x ∧ v = w := by
  cases r with
  | ok x => exact ⟨.refl w, rfl, rfl⟩
  | error e => exact ⟨trivial, .refl w⟩

/-- A request changes what was committed to the table of its result. If it fails, then for a reason
of storage, and it has changed nothing or all. -/
def Changes (V : View E file) (a : Database.Action E α) (w : World E.Memory) (P : α → Prop)
    (T : α → Table) : Prop :=
  Yields a w (fun r v => w.disk.Extends v.disk ∧ P r ∧ V.committed v = T r) fun f v =>
    f.OfStorage ∧ w.disk.Extends v.disk ∧
      (V.committed v = V.committed w ∨ ∃ r, P r ∧ V.committed v = T r)

namespace Lawful

variable {P : α → Prop} {T : α → Table}

/-- A transaction is done as a whole or not at all. -/
theorem transact (hV : V.Lawful) (h : E.Handle file) {body : E.Writing file → Database.Action E α}
    (hbody : ∀ t v, V.written v t = V.committed w →
      V.Steady (body t) v fun r u => V.written u t = T r ∧ P r) :
    V.Changes (Database.transact h body) w P T := by
  have failed : ∀ {f : Fault} {v : World E.Memory}, f.OfStorage ∧ V.Keeps w v →
      f.OfStorage ∧ w.disk.Extends v.disk ∧
        (V.committed v = V.committed w ∨ ∃ r, P r ∧ V.committed v = T r) :=
    fun hf => ⟨hf.1, hf.2.directories, .inl hf.2.committed⟩
  have hbegin := Yields.mono (hV.beginWrite w h).ask (fun _ _ => id) fun _ _ => failed
  refine Yields.bind hbegin ?_
  rintro t v ⟨hv, ht⟩
  have hwork : V.Steady (do Database.ask (E.openTable t); body t) v fun r u =>
      V.written u t = T r ∧ P r :=
    (hV.openTable v t).ask.bind fun _ u hu => hbody t u (hu.trans ht)
  have hdone : Yields (MonadExcept.tryCatch (do Database.ask (E.openTable t); body t) fun f => do
      E.abort t; throw f) v (fun r u => V.Keeps v u ∧ V.written u t = T r ∧ P r)
      fun f u => f.OfStorage ∧ w.disk.Extends u.disk ∧
        (V.committed u = V.committed w ∨ ∃ r, P r ∧ V.committed u = T r) := by
    refine Yields.tryCatch hwork ?_
    rintro f u ⟨hf, hu⟩
    have habort : Yields (liftM (E.abort t) : Database.Action E Unit) u (fun _ x => V.Keeps u x)
        fun _ _ => False := yields_lift (hV.abort u t)
    refine Yields.bind (habort.mono (fun _ _ => id) fun _ _ => False.elim) fun _ x hx => ?_
    exact yields_throw (failed ⟨hf, (hv.trans hu).trans hx⟩)
  refine Yields.bind hdone ?_
  rintro r u ⟨hu, hr, hP⟩
  have hcommit := yields_ask (hV.commit u t)
  refine Yields.bind (hcommit.mono (fun _ x hx => hx) ?_) ?_
  · rintro f x ⟨hf, hx, hold | hnew⟩
    · exact ⟨hf, (hv.trans hu).directories.trans hx, .inl (hold.trans (hv.trans hu).committed)⟩
    · exact ⟨hf, (hv.trans hu).directories.trans hx, .inr ⟨r, hP, hnew.trans hr⟩⟩
  · rintro _ x ⟨hx, hnew⟩
    exact yields_pure ⟨(hv.trans hu).directories.trans hx, hP, hnew.trans hr⟩

/-- Putting a value changes nothing but what is under its key. -/
theorem putRaw (hV : V.Lawful) (w) (h : E.Handle file) (key : String) (value : List UInt8) :
    V.Changes (Database.putRaw h key value) w (fun _ => True)
      fun _ => Function.update (V.committed w) key (some value) := by
  refine hV.transact h fun t v ht => (hV.insert v t key value).ask.mono fun _ u hu => ?_
  exact ⟨ht ▸ hu, trivial⟩

theorem put (hV : V.Lawful) (w) (h : E.Handle file) (s : Specifier) (e : Entry) :
    V.Changes (Database.put h s e) w (fun _ => True)
      fun _ => Function.update (V.committed w) (storageKey s) (some e.bytes) :=
  hV.putRaw w h (storageKey s) e.bytes

/-- A transaction that reads keeps what was committed. -/
theorem steady_read (hV : V.Lawful) {w} {h : E.Handle file}
    {body : E.Reading file → Database.Action E α}
    (hbody : ∀ r v, V.read v r = V.committed w → V.Steady (body r) v good) :
    V.Steady (do let r ← ask (E.beginRead h); ask (E.openRead r); body r) w good :=
  (hV.beginRead w h).ask.bind fun r v hr =>
    (hV.openRead v r).ask.bind fun _ u hu => hbody r u (hu.trans hr)

/-- What is under the key of a specifier is found, if it is the layout of a compile. -/
theorem get (hV : V.Lawful) {w} (h : E.Handle file) {s : Specifier} {stored : Option Entry}
    (hstored : V.committed w (storageKey s) = stored.map Entry.bytes)
    (hfits : ∀ e, stored = some e → e.Fits) :
    V.Steady (Database.get h s) w fun found _ => found = stored := by
  refine hV.steady_read fun r v hr => (hV.lookUp v r (storageKey s)).ask.bind ?_
  rintro _ u rfl
  rw [hr, hstored]
  cases stored with
  | none => exact steady_pure rfl
  | some e =>
    simp only [Option.map_some, Entry.read_bytes (hfits e rfl)]
    exact steady_pure rfl

/-! ### All keys of compiles -/

/-- As many keys of compiles have a value. -/
def CountsOwn (T : Table) (n : Nat) : Prop :=
  ∃ keys : List String, keys.Nodup ∧ (∀ key, key ∈ keys ↔
    DatabaseStore.isOwn key = true ∧ (T key).isSome = true) ∧ n = keys.length

theorem ownKeys_eq_ok {listed : List Listed} {keys : List String}
    (h : ownKeys listed = .ok keys) : ∃ records : List (String × List UInt8),
      listed = records.map .ok ∧ keys = (records.map (·.1)).filter DatabaseStore.isOwn := by
  induction listed generalizing keys with
  | nil =>
    cases h
    exact ⟨[], rfl, rfl⟩
  | cons item rest ih =>
    obtain _ | ⟨key, value⟩ := item
    · cases h
    · rw [ownKeys] at h
      cases hrest : ownKeys rest with
      | error e => simp [hrest, Except.map] at h
      | ok inner =>
        rw [hrest] at h
        obtain ⟨records, rfl, rfl⟩ := ih hrest
        refine ⟨(key, value) :: records, rfl, ?_⟩
        rw [← Except.ok.inj h, List.map_cons, List.filter_cons]

theorem mem_ownKeys {listed : List Listed} {keys : List String} {T : Table}
    (hlisted : Lists listed T) (h : ownKeys listed = .ok keys) : keys.Nodup ∧
      ∀ key, key ∈ keys ↔ DatabaseStore.isOwn key = true ∧ (T key).isSome = true := by
  obtain ⟨records, rfl, rfl⟩ := ownKeys_eq_ok h
  obtain ⟨hnodup, hmem⟩ := hlisted records rfl
  refine ⟨hnodup.filter _, fun key => ?_⟩
  rw [List.mem_filter, List.mem_map, Option.isSome_iff_exists, and_comm]
  refine and_congr_right fun _ => ⟨?_, ?_⟩
  · rintro ⟨⟨_, value⟩, hr, rfl⟩
    exact ⟨value, (hmem _ _).1 hr⟩
  · rintro ⟨value, hv⟩
    exact ⟨(key, value), (hmem _ _).2 hv, rfl⟩

/-- Keys are removed one after the other. -/
theorem steady_remove (hV : V.Lawful) (t : E.Writing file) (keys : List String) (w) :
    V.Steady (keys.forM fun key => ask (E.remove t key)) w fun _ v =>
      V.written v t = fun key => if key ∈ keys then none else V.written w t key := by
  induction keys generalizing w with
  | nil => exact steady_pure (by simp)
  | cons key keys ih =>
    refine (hV.remove w t key).ask.bind fun _ v hv => (ih v).mono fun _ u hu => ?_
    rw [hu]
    funext k
    by_cases hk : k = key <;> simp [hv, hk]

/-- Clearing removes the values under keys of compiles, and tells how many there were. -/
theorem clear (hV : V.Lawful) (w) (h : E.Handle file) :
    V.Changes (Database.clear h) w (CountsOwn (V.committed w)) fun _ key =>
      if DatabaseStore.isOwn key then none else V.committed w key := by
  refine hV.transact h fun t v ht => (hV.listWritten v t).ask.bind ?_
  rintro listed u ⟨hu, hlisted⟩
  rw [ht] at hu hlisted
  refine (V.steady_accept (ownKeys listed) u).bind ?_
  rintro keys _ ⟨hkeys, rfl⟩
  obtain ⟨hnodup, hmem⟩ := mem_ownKeys hlisted hkeys
  refine (hV.steady_remove t keys _).bind fun _ x hx => steady_pure ⟨?_, keys, hnodup, ?_, rfl⟩
  · rw [hx, hu]
    funext key
    cases hvalue : V.committed w key <;> simp [hmem, hvalue]
  · exact hmem

/-- The number of compiles is the number of values under their keys. -/
theorem size (hV : V.Lawful) (w) (h : E.Handle file) :
    V.Steady (Database.size h) w fun n _ => CountsOwn (V.committed w) n := by
  refine hV.steady_read fun r v hr => (hV.list v r).ask.bind fun listed u hlisted => ?_
  refine (V.steady_accept (ownKeys listed) u).bind ?_
  rintro keys _ ⟨hkeys, rfl⟩
  obtain ⟨hnodup, hmem⟩ := mem_ownKeys (hr ▸ hlisted) hkeys
  exact steady_pure ⟨keys, hnodup, hmem, rfl⟩

/-! ### Opening -/

/-- A directory is there, and need not be created on any disk that has the same directories. -/
def Created (w : World E.Memory) (directory : String) : Prop :=
  ∀ k, w.disk.Extends k → k.createDirectories directory = .ok k

theorem Created.keeps {directory : String} {w v : World E.Memory} (hw : Created w directory)
    (h : w.disk.Extends v.disk) : Created v directory := fun k hk => hw k (h.trans hk)

theorem steady_createDirectory {directory : String} {w : World E.Memory}
    (hw : Created w directory) : V.Steady (createDirectory directory) w fun _ v => v = w := by
  unfold createDirectory
  refine yields_get ?_
  rw [hw w.disk .refl]
  exact ⟨.refl w, rfl⟩

/-- What opening does behind creating the directory. -/
theorem steady_create {directory : String} {V : View E (path directory)} (hV : V.Lawful)
    (w : World E.Memory) :
    V.Steady (do
      let h ← ask (E.create (path directory))
      tryCatch (Database.transact h fun _ => pure ()) fun f => do E.close h; throw f
      return h) w fun _ _ => True := by
  refine (hV.create w).ask.bind fun h v _ => ?_
  have hnothing : V.Steady (Database.transact h fun _ => pure ()) v fun _ _ => True := by
    have hchanges : V.Changes (Database.transact h fun _ => pure ()) v (fun _ => True)
        fun _ => V.committed v := hV.transact h fun t u hu => steady_pure ⟨hu, trivial⟩
    refine Yields.mono hchanges (fun _ u hu => ⟨⟨hu.1, hu.2.2⟩, trivial⟩) ?_
    rintro f u ⟨hf, hu, hold | ⟨_, _, hnew⟩⟩
    · exact ⟨hf, hu, hold⟩
    · exact ⟨hf, hu, hnew⟩
  refine Steady.bind (Yields.tryCatch hnothing ?_) fun _ u _ => steady_pure trivial
  rintro f u ⟨hf, hu⟩
  have hclose : Yields (liftM (E.close h) : Database.Action E Unit) u (fun _ x => V.Keeps u x)
      fun _ _ => False := yields_lift (hV.close u h)
  refine Yields.bind (hclose.mono (fun _ _ => id) fun _ _ => False.elim) fun _ x hx => ?_
  exact yields_throw ⟨hf, hu.trans hx⟩

/-- Opening a store again finds what was committed; so it does if it fails. -/
theorem «open» {directory : String} {V : View E (path directory)} (hV : V.Lawful)
    {w : World E.Memory} (hw : Created w directory) :
    V.Steady (Database.open directory) w fun _ _ => True := by
  refine (steady_createDirectory hw).bind ?_
  rintro _ u rfl
  exact hV.steady_create u

end Lawful

end View

end ScriptLoader.Cache
