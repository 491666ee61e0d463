import Mathlib.Data.List.Induction
import ScriptLoader.Proofs.Cache.Store
import ScriptLoader.Proofs.Loader.Requests

/-!
# What requests store

A request stores the compiles that it waited for, and nothing else; one that fails empties the store
behind that. So whatever a store has behind a failure was compiled anew by a request that came
later.

* `Workshop.Gave`: a module was given to the compiler since then.
* `Workshop.gave_of_resolve`: a resolution stores nothing of a module that it has not compiled.
* `Loader.workshop_loadSpecifier`: what a request leaves of its workshop.
* `Loader.Stores`, `Loader.stores_of_emptied`: the call that an entry of a store is from.
* `Loader.Cleared`: what a failure leaves of a store.
-/

namespace ScriptLoader

/-! ## Stores -/

namespace Cache.Store

theorem get?_put_of_ne (st : Store) (e : Entry) {s t : Specifier} (h : t ≠ s) :
    (st.put s e).get? t = st.get? t := by
  cases st with
  | memory m => simp only [put, get?, MemoryStore.get?, MemoryStore.put, Keyed.get?_put, if_neg h]
  | database d =>
    have hkey : ¬ storageKey t = storageKey s := mt storageKey_injective h
    simp only [put, get?, DatabaseStore.get?, DatabaseStore.put, DatabaseStore.putRaw,
      Keyed.get?_put, if_neg hkey]

theorem size_discard (st : Store) : st.discard.1.size = 0 := by
  cases st with
  | memory m => rfl
  | database d => simp [discard, clear, size, DatabaseStore.clear, DatabaseStore.size]

/-- The store has no compile. -/
def Emptied (st : Store) : Prop := st.size = 0 ∧ ∀ s, st.get? s = .ok none

theorem emptied_discard (st : Store) : st.discard.1.Emptied := ⟨size_discard st, get?_discard st⟩

/-- The store has what is to be stored of a record. -/
def Has (st : Store) (r : CompiledRecord) : Prop :=
  ∃ c code, r.checksum? = some c ∧ r.outcome = .ok code ∧
    (st.Holds ⟨c, r.report, code⟩ → st.get? r.specifier = .ok (some ⟨c, r.report, code⟩))

theorem Has.of_get?_eq {st old : Store} {r : CompiledRecord} (h : old.Has r)
    (hd : st.isDatabase = old.isDatabase) (hs : st.get? r.specifier = old.get? r.specifier) :
    st.Has r := by
  obtain ⟨c, code, hc, ho, hget⟩ := h
  exact ⟨c, code, hc, ho, fun hh => hs ▸ hget (by rwa [Holds, ← hd])⟩

end Cache.Store

namespace Workshop

theorem cache_discardCache (w : Workshop) :
    w.discardCache.cache = w.cache.map fun st => st.discard.1 := by
  unfold discardCache
  split
  · next h => rw [h]; rfl
  · next st h => rw [h]; rfl

theorem compiled_discardCache (w : Workshop) : w.discardCache.compiled = w.compiled := by
  unfold discardCache
  split <;> rfl

/-! ## What was compiled -/

/-- The module was given to the compiler since `before` was all that was. -/
def Gave (before : List Specifier) (w : Workshop) (s : Specifier) : Prop :=
  ∃ more, w.compiled = before ++ more ∧ s ∈ more

variable {before : List Specifier} {w v : Workshop} {s : Specifier} {options : Compile.Options}

theorem Gave.mono (h : Gave before w s) (hv : w.compiled <+: v.compiled) : Gave before v s := by
  obtain ⟨more, hw, hs⟩ := h
  obtain ⟨rest, hrest⟩ := hv
  exact ⟨more ++ rest, by rw [← hrest, hw, List.append_assoc], List.mem_append_left _ hs⟩

/-- The record is not to be stored, or its module was compiled since then. -/
def Traced (before : List Specifier) (w : Workshop) (r : CompiledRecord) : Prop :=
  r.checksum? = none ∨ Gave before w r.specifier

theorem Traced.mono {r : CompiledRecord} (h : Traced before w r)
    (hv : w.compiled <+: v.compiled) : Traced before v r := h.imp_right fun h => h.mono hv

theorem compiled_lookUp (w : Workshop) (s : Specifier) (c : Option Cache.Checksum) :
    (w.lookUp s c).2.compiled = w.compiled := by
  unfold lookUp
  split <;> rfl

theorem compiled_compile (w : Workshop) (q : Compile.Request) (c : Option Cache.Checksum) :
    (w.compile q c).2.compiled = w.compiled ++ [q.specifier] := by
  unfold compile
  dsimp only
  split <;> rfl

/-- A record that is there at once is not to be stored, and any other one was compiled. -/
theorem compiled_order (w : Workshop) (options : Compile.Options) (s : Specifier) :
    (∃ outcome, (w.order options s).1 = .done outcome ∧
      (w.order options s).2.compiled = w.compiled ∧
      ∀ r, outcome = .ok r → r.checksum? = none) ∨
    ∃ outcome, (w.order options s).1 = .compiling outcome ∧
      (w.order options s).2.compiled = w.compiled ++ [s] := by
  rw [order_eq]
  split
  · next e _ => exact Or.inl ⟨.error e, rfl, rfl, by rintro _ ⟨⟩⟩
  · dsimp only
    split
    · exact Or.inl ⟨_, rfl, compiled_lookUp _ _ _, by rintro _ ⟨⟩; rfl⟩
    · exact Or.inr ⟨_, rfl, by rw [compiled_compile, compiled_lookUp]; rfl⟩

end Workshop

namespace Resolving

open Workshop

variable {before : List Specifier} {options : Compile.Options} {w : Workshop}
  {skip : Specifier → Bool}

/-- The module that finishes next can be traced, and so can those that are still compiled. -/
theorem traced_nextOf (options : Compile.Options) (queue : List Specifier)
    {running : List (Specifier × Except LoadError CompiledRecord)}
    (hb : before <+: w.compiled)
    (hr : ∀ p ∈ running, ∀ r, p.2 = .ok r → Traced before w r) :
    let v := (nextOf options queue running w).2
    w.compiled <+: v.compiled ∧ ∀ f, (nextOf options queue running w).1 = some f →
      (∀ r, f.outcome = .ok r → Traced before v r) ∧
      ∀ p ∈ f.running, ∀ r, p.2 = .ok r → Traced before v r := by
  fun_induction nextOf options queue running w with
  | case1 => exact ⟨List.prefix_rfl, by rintro _ ⟨⟩⟩
  | case2 s outcome running w =>
    refine ⟨List.prefix_rfl, ?_⟩
    rintro _ ⟨⟩
    exact ⟨hr (s, outcome) List.mem_cons_self, fun p hp => hr p (List.mem_cons_of_mem _ hp)⟩
  | case3 s queue running w outcome v hv =>
    obtain ⟨_, hd, hc, hnone⟩ | ⟨_, hd, -⟩ := compiled_order w options s <;> rw [hv] at hd
    · cases hd
      rw [hv] at hc
      have hp : w.compiled <+: v.compiled := hc ▸ List.prefix_rfl
      refine ⟨hp, ?_⟩
      rintro _ ⟨⟩
      exact ⟨fun r h => Or.inl (hnone r h), fun p hm r h => (hr p hm r h).mono hp⟩
    · cases hd
  | case4 s queue running w outcome v hv ih =>
    obtain ⟨_, hd, -⟩ | ⟨_, hd, hc⟩ := compiled_order w options s <;> rw [hv] at hd
    · cases hd
    · cases hd
      rw [hv] at hc
      have hp : w.compiled <+: v.compiled := hc ▸ List.prefix_append _ _
      have hs : Gave before v s := by
        obtain ⟨more, hmore⟩ := hb
        exact ⟨more ++ [s], by rw [hc, ← hmore, List.append_assoc], by simp⟩
      have hout : ∀ r, outcome = .ok r → r.specifier = s := fun r hr =>
        specifier_order (show (w.order options s).1.outcome = .ok r by rw [hv]; exact hr)
      obtain ⟨hle, hf⟩ := ih (hb.trans hp) (by
        intro p hm r h
        rcases List.mem_append.1 hm with hm | hm
        · exact (hr p hm r h).mono hp
        · rw [List.mem_singleton.1 hm] at h
          exact Or.inr (hout r h ▸ hs))
      exact ⟨hp.trans hle, hf⟩

/-- What is known of a resolution that is run: every record of it can be traced. -/
structure AllTraced (before : List Specifier) (w : Workshop) (r : Resolving) : Prop where
  compiled : before <+: w.compiled
  running : ∀ p ∈ r.running, ∀ q, p.2 = .ok q → Traced before w q
  records : ∀ q ∈ r.resolution.graph.records, Traced before w q

theorem traced_step (skip : Specifier → Bool) (options : Compile.Options) {r : Resolving}
    (h : AllTraced before w r) :
    (∀ g, (r.step skip options w).1 = .inl (.ok g) →
      ∀ q ∈ g.records, Traced before (r.step skip options w).2 q) ∧
    ∀ next, (r.step skip options w).1 = .inr next →
      AllTraced before (r.step skip options w).2 next.1 := by
  obtain ⟨hle, hf⟩ := traced_nextOf options r.queue h.compiled h.running
  rcases step_cases skip options r w with ⟨-, hs⟩ | ⟨f, hn, ⟨e, -, hs⟩ | ⟨x, new, hb, hx, hs⟩⟩
  · rw [hs]
    refine ⟨?_, by rintro _ ⟨⟩⟩
    rintro _ ⟨⟩ q hq
    exact (h.records q hq).mono hle
  · rw [hs]
    exact ⟨by rintro _ ⟨⟩, by rintro _ ⟨⟩⟩
  · rw [hs]
    refine ⟨by rintro _ ⟨⟩, ?_⟩
    rintro _ ⟨⟩
    obtain ⟨hout, hrun⟩ := hf f hn
    obtain ⟨-, record, hrecord, hnext⟩ := Resolution.finish_eq_ok_iff.1 hx
    have hgraph : x.graph = r.resolution.graph.insert record :=
      (congrArg (fun next => next.1.graph) hnext).symm
    refine ⟨h.compiled.trans hle, hrun, ?_⟩
    intro q hq
    have hinsert : [record].foldl Graph.insert r.resolution.graph = x.graph := hgraph.symm
    rcases Graph.mem_records_insertAll (hinsert ▸ hq) with hq | hq
    · exact (h.records q hq).mono hle
    · exact hout q (List.mem_singleton.1 hq ▸ hrecord)

theorem traced_run {r : Resolving} (h : AllTraced before w r) {g : Graph}
    (hg : (r.run skip options w).1 = .ok g) :
    ∀ q ∈ g.records, Traced before (r.run skip options w).2 q := by
  fun_induction run skip options r w with
  | case1 r w result v hs =>
    have hstep := (traced_step skip options h).1 g
    rw [hs] at hstep
    exact hstep (congrArg Sum.inl hg)
  | case2 r w next hb v hs ih =>
    have hstep := (traced_step skip options h).2 ⟨next, hb⟩
    rw [hs] at hstep
    exact ih (hstep rfl) hg

end Resolving

namespace Workshop

/-- What a resolution found and is to be stored was compiled for it. -/
theorem gave_of_resolve {w : Workshop} {skip : Specifier → Bool} {limit : Nat}
    {options : Compile.Options} {entries : List Specifier} {g : Graph}
    (h : (w.resolve skip limit options entries).1 = .ok g) {r : CompiledRecord}
    (hr : r ∈ g.records) {c : Cache.Checksum} (hc : r.checksum? = some c) :
    Gave w.compiled (w.resolve skip limit options entries).2 r.specifier := by
  have htraced : Resolving.AllTraced w.compiled w (.start skip limit entries) :=
    ⟨List.prefix_rfl, by rintro _ ⟨⟩, by rintro _ ⟨⟩⟩
  refine (Resolving.traced_run htraced h r hr).resolve_left ?_
  rw [hc]
  exact Option.some_ne_none c

/-! ## What is stored -/

/-- Storing a record touches the entry of its module alone. -/
theorem cache_store {w : Workshop} {r : CompiledRecord} {st : Cache.Store}
    (h : (w.store r).cache = some st) : ∃ old, w.cache = some old ∧
      st.isDatabase = old.isDatabase ∧
      ∀ s, st.get? s = old.get? s ∨ r.specifier = s ∧ st.Has r := by
  unfold store at h
  split at h
  · next old c code hw hc hcode =>
    cases h
    refine ⟨old, hw, Cache.Store.isDatabase_put _ _ _, fun s => ?_⟩
    by_cases hs : s = r.specifier
    · refine Or.inr ⟨hs.symm, c, code, hc, ?_, fun hh => ?_⟩
      · unfold CompiledRecord.readyCode? at hcode
        split at hcode
        · next ho => rw [ho, Option.some.inj hcode]
        · cases hcode
      · rw [Cache.Store.Holds, Cache.Store.isDatabase_put] at hh
        rw [Cache.Store.get?_put hh, if_pos rfl]
    · exact Or.inl (Cache.Store.get?_put_of_ne old _ hs)
  · exact ⟨st, h, rfl, fun s => Or.inl rfl⟩

theorem cache_foldl_store {rs : List CompiledRecord} {w : Workshop} {st : Cache.Store}
    (h : (rs.foldl store w).cache = some st) : ∃ old, w.cache = some old ∧
      st.isDatabase = old.isDatabase ∧
      ∀ s, st.get? s = old.get? s ∨ ∃ r ∈ rs, r.specifier = s ∧ st.Has r := by
  induction rs generalizing w with
  | nil => exact ⟨st, h, rfl, fun s => Or.inl rfl⟩
  | cons r rs ih =>
    obtain ⟨mid, hmid, hd, hget⟩ := ih h
    obtain ⟨old, hold, hd', hget'⟩ := cache_store hmid
    refine ⟨old, hold, hd.trans hd', fun s => ?_⟩
    rcases hget s with hs | ⟨q, hq, hname, hk⟩
    · refine (hget' s).imp (fun hs' => hs.trans hs') ?_
      rintro ⟨rfl, hk⟩
      exact ⟨r, List.mem_cons_self, rfl, hk.of_get?_eq hd hs⟩
    · exact Or.inr ⟨q, List.mem_cons_of_mem _ hq, hname, hk⟩

theorem compiled_foldl_store (rs : List CompiledRecord) (w : Workshop) :
    (rs.foldl store w).compiled = w.compiled := by
  induction rs generalizing w with
  | nil => rfl
  | cons r rs ih =>
    rw [List.foldl_cons, ih]
    unfold store
    split <;> rfl

theorem isSome_cache_foldl_store (rs : List CompiledRecord) (w : Workshop) :
    (rs.foldl store w).cache.isSome = w.cache.isSome := by
  induction rs generalizing w with
  | nil => rfl
  | cons r rs ih =>
    rw [List.foldl_cons, ih]
    unfold store
    split
    · next h _ _ => rw [h]; rfl
    · rfl

/-- Waiting for a graph stores records of it, and nothing else. -/
theorem cache_awaitCode {w : Workshop} {g : Graph} {st : Cache.Store}
    (h : (w.awaitCode g).2.cache = some st) : ∃ old, w.cache = some old ∧
      st.isDatabase = old.isDatabase ∧
      ∀ s, st.get? s = old.get? s ∨ ∃ r ∈ g.records, r.specifier = s ∧ st.Has r := by
  obtain ⟨old, hold, hd, hget⟩ := cache_foldl_store h
  refine ⟨old, hold, hd, fun s => (hget s).imp_right ?_⟩
  rintro ⟨r, hr, hname, hk⟩
  obtain ⟨⟨first, waited⟩, hmem, hnew⟩ := List.mem_filterMap.1 hr
  obtain rfl : waited = r := by
    dsimp only at hnew
    split at hnew
    · cases hnew
    · exact Option.some.inj hnew
  obtain ⟨q, hq, rfl | rfl⟩ := Graph.mem_awaitRecords (List.of_mem_zip hmem).2
  · exact ⟨_, hq, hname, hk⟩
  · exact ⟨q, hq, hname, hk⟩

theorem compiled_awaitCode (w : Workshop) (g : Graph) :
    (w.awaitCode g).2.compiled = w.compiled := compiled_foldl_store _ w

end Workshop

namespace Loader

variable {F σ : Type} {host : Host F σ} {l k : Loader F σ} {entry : Specifier}
  {options : Compile.Options}

/-- The workshop behind the resolution of an entry, and the waiting for its code. -/
def supplied (l : Loader F σ) (options : Compile.Options) (entry : Specifier) : Workshop :=
  match l.workshop.resolve (l.skips options) l.settings.limit options [entry] with
  | (.ok g, w) => (w.awaitCode g).2
  | (.error _, w) => w

theorem workshop_retain (l : Loader F σ) (options : Compile.Options) (g : Graph) :
    (l.retain options g).workshop = l.workshop := by
  unfold retain
  induction g.records generalizing l with
  | nil => rfl
  | cons r rs ih => exact ih _

/-- What a request leaves of its workshop once it has looked its entry up. -/
def Leaves (w : Workshop) (x : Except LoadError (LoadedModule F) × Loader F σ) : Prop :=
  (∃ m, x.1 = .ok m ∧ x.2.workshop = w) ∨ ∃ e, x.1 = .error e ∧ x.2.workshop = w.discardCache

theorem leaves_failing (l : Loader F σ) (e : LoadError) :
    Leaves l.workshop (l.runFrom host entry options (.failing e)) := by
  rw [runFrom_failing]
  exact Or.inr ⟨e, rfl, rfl⟩

theorem leaves_compiled (l : Loader F σ) (g : Graph) :
    Leaves l.workshop (l.runFrom host entry options (.compiled g)) := by
  rw [runFrom_next rfl]
  simp only [nextStage]
  rw [runFrom_next rfl]
  simp only [nextStage]
  have hw : ((l.assemble host g entry).2.retain options g).workshop = l.workshop :=
    workshop_retain _ _ _
  cases (l.assemble host g entry).1 with
  | error e => exact hw ▸ leaves_failing _ e
  | ok m =>
    dsimp only
    rw [runFrom_finished]
    exact Or.inl ⟨m, rfl, hw⟩

theorem leaves_resolved (l : Loader F σ) (g : Graph) :
    Leaves (l.workshop.awaitCode g).2 (l.runFrom host entry options (.resolved g)) := by
  rw [runFrom_next rfl]
  simp only [nextStage]
  rcases l.workshop.awaitCode g with ⟨⟨waited, e | ⟨⟩⟩, w⟩
  · exact leaves_failing { l with workshop := w } e
  · exact leaves_compiled _ _

theorem workshop_loadSpecifier (host : Host F σ) (l : Loader F σ) (entry : Specifier)
    (options : Compile.Options) :
    (∃ m, l.registry.get? entry = some m ∧ (l.loadSpecifier host entry options).1 = .ok m ∧
      (l.loadSpecifier host entry options).2.workshop = l.workshop) ∨
    Leaves (l.supplied options entry) (l.loadSpecifier host entry options) := by
  cases hn : l.registry.get? entry with
  | some m =>
    rw [loadSpecifier, runFrom_next rfl]
    simp only [nextStage]
    rw [hn, runFrom_finished]
    exact Or.inl ⟨m, rfl, rfl, rfl⟩
  | none =>
    refine Or.inr ?_
    rw [loadSpecifier_of_not_loaded hn]
    unfold supplied
    rcases l.workshop.resolve (l.skips options) l.settings.limit options [entry] with ⟨e | g, w⟩
    · exact leaves_failing _ e
    · exact leaves_resolved _ g

/-! ## Calls -/

/-- What a call to a loader stored for a module: what it had compiled for its graph. -/
def Stores (host : Host F σ) (l : Loader F σ) (call : Call) (st : Cache.Store) (s : Specifier) :
    Prop :=
  ∃ entry g r, call.entry = .ok entry ∧ l.Resolved (call.options l) entry g ∧ r ∈ g.records ∧
    r.specifier = s ∧ st.Has r ∧
    Workshop.Gave l.workshop.compiled (l.serve host call).2.workshop s

theorem isSome_cache_supplied (l : Loader F σ) (options : Compile.Options) (entry : Specifier) :
    (l.supplied options entry).cache.isSome = l.workshop.cache.isSome := by
  have hcache : (l.workshop.resolve (l.skips options) l.settings.limit options [entry]).2.cache =
      l.workshop.cache := (Resolving.alike_run _ _ _ _).cache
  unfold supplied
  generalize l.workshop.resolve (l.skips options) l.settings.limit options [entry] = x at hcache
  rcases x with ⟨e | g, w⟩
  · exact congrArg Option.isSome hcache
  · exact (Workshop.isSome_cache_foldl_store _ w).trans (congrArg Option.isSome hcache)

theorem cache_supplied {st : Cache.Store} (h : (l.supplied options entry).cache = some st) :
    ∃ old, l.workshop.cache = some old ∧ st.isDatabase = old.isDatabase ∧
      ∀ s, st.get? s = old.get? s ∨ ∃ g r, l.Resolved options entry g ∧ r ∈ g.records ∧
        r.specifier = s ∧ st.Has r ∧
        Workshop.Gave l.workshop.compiled (l.supplied options entry) s := by
  have hcache : (l.workshop.resolve (l.skips options) l.settings.limit options [entry]).2.cache =
      l.workshop.cache := (Resolving.alike_run _ _ _ _).cache
  have hgave : ∀ g,
      (l.workshop.resolve (l.skips options) l.settings.limit options [entry]).1 = .ok g →
      ∀ r ∈ g.records, ∀ c, r.checksum? = some c → Workshop.Gave l.workshop.compiled
        (l.workshop.resolve (l.skips options) l.settings.limit options [entry]).2 r.specifier :=
    fun g h r hr c hc => Workshop.gave_of_resolve h hr hc
  unfold Resolved
  unfold supplied at h ⊢
  generalize l.workshop.resolve (l.skips options) l.settings.limit options [entry] = x
    at h hcache hgave ⊢
  rcases x with ⟨e | g, w⟩
  · exact ⟨st, by rw [← hcache]; exact h, rfl, fun s => Or.inl rfl⟩
  · obtain ⟨old, hold, hd, hget⟩ := Workshop.cache_awaitCode h
    refine ⟨old, by rw [← hcache]; exact hold, hd, fun s => (hget s).imp_right ?_⟩
    rintro ⟨r, hr, rfl, hhas⟩
    obtain ⟨c, -, hc, -⟩ := id hhas
    obtain ⟨more, hmore, hs⟩ := hgave g rfl r hr c hc
    exact ⟨g, r, rfl, hr, rfl, hhas, more, (Workshop.compiled_awaitCode w g).trans hmore, hs⟩

/-- Behind a call, a store is empty, or it has what the call stored and what it had before. -/
theorem stores_serve {call : Call} {st : Cache.Store}
    (h : (l.serve host call).2.workshop.cache = some st) :
    st.Emptied ∨ ∃ old, l.workshop.cache = some old ∧ st.isDatabase = old.isDatabase ∧
      ∀ s, st.get? s = old.get? s ∨ l.Stores host call st s := by
  unfold Stores
  rcases serve_cases host l call with ⟨_, _, -, hs⟩ | ⟨entry, events, hentry, hs⟩
  · rw [hs] at h
    exact Or.inr ⟨st, h, rfl, fun s => Or.inl rfl⟩
  · rw [hs] at h ⊢
    rcases workshop_loadSpecifier host { l with events } entry (call.options l) with
      ⟨m, -, -, hw⟩ | ⟨m, -, hw⟩ | ⟨e, -, hw⟩
    · rw [hw] at h
      exact Or.inr ⟨st, h, rfl, fun s => Or.inl rfl⟩
    · rw [hw] at h ⊢
      obtain ⟨old, hold, hd, hget⟩ := cache_supplied h
      refine Or.inr ⟨old, hold, hd, fun s => (hget s).imp_right ?_⟩
      rintro ⟨g, r, hg, hr, hname, hhas, hgave⟩
      exact ⟨entry, g, r, hentry, hg, hr, hname, hhas, hgave⟩
    · rw [hw, Workshop.cache_discardCache, Option.map_eq_some_iff] at h
      obtain ⟨old, -, rfl⟩ := h
      exact Or.inl (Cache.Store.emptied_discard old)

/-- What is stored behind calls to a loader with an empty store was stored by one of them. -/
theorem stores_of_emptied (hk : ∀ st, k.workshop.cache = some st → st.Emptied) (calls : List Call)
    {st : Cache.Store} (h : (k.serveAll host calls).workshop.cache = some st) (s : Specifier) :
    st.get? s = .ok none ∨ ∃ before call after, calls = before ++ call :: after ∧
      (k.serveAll host before).Stores host call st s := by
  induction calls using List.reverseRecOn generalizing st with
  | nil => exact Or.inl ((hk st h).2 s)
  | append_singleton calls call ih =>
    have hlast : k.serveAll host (calls ++ [call]) =
        ((k.serveAll host calls).serve host call).2 := List.foldl_append
    rw [hlast] at h
    rcases stores_serve h with hempty | ⟨old, hold, hd, hget⟩
    · exact Or.inl (hempty.2 s)
    · rcases hget s with hs | hs
      · rcases ih hold with hn | ⟨before, one, after, hcalls, hone⟩
        · exact Or.inl (hs.trans hn)
        · refine Or.inr ⟨before, one, after ++ [call], by rw [hcalls, List.append_assoc]; rfl, ?_⟩
          obtain ⟨entry, g, r, hentry, hg, hr, rfl, hhas, hgave⟩ := hone
          exact ⟨entry, g, r, hentry, hg, hr, rfl, hhas.of_get?_eq hd hs, hgave⟩
      · exact Or.inr ⟨calls, call, [], rfl, hs⟩

/-- A store that was configured is empty, and whatever it has behind more calls was stored by one of
them. -/
structure Cleared (host : Host F σ) (l k : Loader F σ) : Prop where
  configured : k.workshop.cache.isSome = l.workshop.cache.isSome
  emptied : ∀ st, k.workshop.cache = some st → st.Emptied
  later : ∀ calls st s, (k.serveAll host calls).workshop.cache = some st →
    st.get? s = .ok none ∨ ∃ before call after, calls = before ++ call :: after ∧
      (k.serveAll host before).Stores host call st s

theorem cleared_of_discardCache {w : Workshop} (hw : w.cache.isSome = l.workshop.cache.isSome)
    (hk : k.workshop = w.discardCache) : Cleared host l k := by
  have hempty : ∀ st, k.workshop.cache = some st → st.Emptied := by
    intro st hst
    rw [hk, Workshop.cache_discardCache, Option.map_eq_some_iff] at hst
    obtain ⟨full, -, rfl⟩ := hst
    exact Cache.Store.emptied_discard full
  refine ⟨?_, hempty, fun calls st s h => stores_of_emptied hempty calls h s⟩
  rw [hk, Workshop.cache_discardCache, Option.isSome_map, hw]

/-- A call that fails clears the store, unless it fails for its text. -/
theorem cleared_of_serve_error {call : Call} {e : LoadError} (hentry : call.entry = .ok entry)
    (h : (l.serve host call).1 = .error e) : Cleared host l (l.serve host call).2 := by
  rcases serve_cases host l call with ⟨_, _, he, -⟩ | ⟨s, events, -, hs⟩
  · rw [hentry] at he
    cases he
  · rw [hs] at h ⊢
    rcases workshop_loadSpecifier host { l with events } s (call.options l) with
      ⟨m, -, hok, -⟩ | ⟨m, hok, -⟩ | ⟨_, -, hw⟩
    · rw [h] at hok
      cases hok
    · rw [h] at hok
      cases hok
    · exact cleared_of_discardCache (isSome_cache_supplied { l with events } _ s) hw

/-- So does a graph that cannot be resolved. -/
theorem cleared_of_resolve_error {options : Compile.Options} {entries : List Specifier}
    {e : LoadError} (h : (l.resolve options entries).1 = .error e) :
    Cleared host l (l.resolve options entries).2 := by
  have hcache : (l.workshop.resolve (fun _ => false) l.settings.limit options entries).2.cache =
      l.workshop.cache := (Resolving.alike_run _ _ _ _).cache
  unfold resolve at h ⊢
  generalize l.workshop.resolve (fun _ => false) l.settings.limit options entries = x
    at h hcache ⊢
  rcases x with ⟨e | g, w⟩
  · exact cleared_of_discardCache (w := w) (congrArg Option.isSome hcache) rfl
  · cases h

end Loader

end ScriptLoader
