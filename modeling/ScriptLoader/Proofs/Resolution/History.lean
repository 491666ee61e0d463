import Mathlib.Data.List.Basic
import ScriptLoader.Compile.Lower
import ScriptLoader.Proofs.Cache.Store
import ScriptLoader.Proofs.Graph.Records
import ScriptLoader.Proofs.Resolution.Execution
import ScriptLoader.Source.Memory

/-!
# Stored compiles over time

Sources change while compiles are stored. A stored compile is used for a source with the same text
and the same options, wherever that text is found; but what a compiler makes of a text may depend on
where it is found, too. So a record is what its compiler makes of the text that is there now, either
where the text is found now or where an earlier resolution has found it.

* `History.Action`, `History.act`: sources change, graphs are resolved, code is waited for, stored
  compiles are forgotten.
* `History.Origin`: what a compile was made of. Every stored compile has one, and every compile that
  waits to be stored (`History.sound_run`).
* `History.records_are_compiles`: what a record is a compile of, behind any history.
* `History.records_are_compiles_where_found`: stored compiles make no difference as long as a text
  is not found at several locations.
-/

namespace ScriptLoader

/-- The report and the code of a record are what a compiler makes of a request. -/
structure CompiledRecord.IsCompile (r : CompiledRecord) (compiler : Compile.Compiler)
    (q : Compile.Request) : Prop where
  report : (compiler q).2 = some r.report
  outcome : r.outcome =
    (compiler q).1.mapError fun f => LoadError.notCompiled q.specifier f.message f.stack

/-- A record with code is all that the compiler made. -/
theorem CompiledRecord.IsCompile.compiler_eq {r : CompiledRecord} {compiler : Compile.Compiler}
    {q : Compile.Request} {code : String} (h : r.IsCompile compiler q)
    (ho : r.outcome = .ok code) : compiler q = (.ok code, some r.report) := by
  refine Prod.ext ?_ h.report
  have hcode := h.outcome.symm.trans ho
  generalize (compiler q).1 = made at hcode
  cases made with
  | error f => cases hcode
  | ok made => exact congrArg _ (Except.ok.inj hcode)

theorem Fetch.retrieve_of_firstText {retrieve : String → Except RetrievalError String}
    {locations : List String} {found : Fetch.Found}
    (h : (Fetch.firstText retrieve locations).2 = some found) :
    retrieve found.location = .ok found.text := by
  induction locations with
  | nil => cases h
  | cons l rest ih =>
    unfold Fetch.firstText at h
    split at h
    · next text hl =>
      cases h
      exact hl
    · exact ih h

/-- What is found is what its location has. -/
theorem Fetch.retrieve_of_run {source : Source} {s : Specifier} {markup : Bool}
    {found : Fetch.Found} (h : (Fetch.run source s markup).1 = .ok found) :
    source.retrieve found.location = .ok found.text := by
  have hstages : ∀ stages, (Fetch.runStages source stages).winner = some found →
      source.retrieve found.location = .ok found.text := by
    intro stages
    induction stages with
    | nil =>
      intro hw
      cases hw
    | cons stage stages ih =>
      intro hw
      unfold Fetch.runStages at hw
      dsimp only at hw
      split at hw
      · exact Fetch.retrieve_of_firstText hw
      · exact ih hw
  unfold Fetch.run at h
  dsimp only at h
  split at h
  · next hw =>
    cases h
    exact hstages _ hw
  · cases h

namespace Workshop

/-! ## Making a record -/

/-- Where a record comes from: a stored compile of the text that was found, or the compiler. -/
inductive Made (w : Workshop) (options : Compile.Options) (found : Fetch.Found)
    (r : CompiledRecord) : Prop where
  | stored {store : Cache.Store} {e : Cache.Entry} : w.cache = some store →
    store.get? r.specifier = .ok (some e) →
    e.checksum = Cache.Checksum.compute found.text options → r.report = e.report →
    r.outcome = .ok e.code → r.checksum? = none → r.cached = true → Made w options found r
  | compiled : r.IsCompile w.compiler ⟨r.specifier, found.location, found.text, options⟩ →
    r.checksum? = (w.cache.map fun _ => Cache.Checksum.compute found.text options) →
    Made w options found r

theorem isCompile_of_compile {w : Workshop} {q : Compile.Request} {c : Option Cache.Checksum}
    {r : CompiledRecord} (h : (w.compile q c).1 = .ok r) :
    r.IsCompile w.compiler q ∧ r.location = q.location ∧ r.checksum? = c := by
  unfold compile at h
  simp only at h
  split at h
  · next report hreport =>
    cases h
    exact ⟨⟨hreport, rfl⟩, rfl, rfl⟩
  · cases h
  · cases h

theorem entry_of_lookUp {w : Workshop} {s : Specifier} {c : Option Cache.Checksum}
    {e : Cache.Entry} (h : (w.lookUp s c).1 = some e) :
    ∃ store, w.cache = some store ∧ store.get? s = .ok (some e) ∧ c = some e.checksum := by
  unfold lookUp at h
  split at h
  · next st c hcache _ =>
    obtain ⟨hget, rfl⟩ := Cache.Store.lookUp_eq_some h
    exact ⟨st, hcache, hget, rfl⟩
  · cases h

theorem made_of_outcomes {w : Workshop} {options : Compile.Options} {s : Specifier}
    {r : CompiledRecord} (h : (w.outcomes options).of s = .ok r) :
    ∃ found, (Fetch.run w.source s options.markup).1 = .ok found ∧ r.location = found.location ∧
      Made w options found r := by
  have hname : r.specifier = s := (w.outcomes options).specifier_eq h
  change (w.order options s).1.outcome = .ok r at h
  have hfetch : (w.fetch s options.markup).1 = (Fetch.run w.source s options.markup).1 := rfl
  have halike := alike_fetch w s options.markup
  rw [order_eq, hfetch] at h
  cases hfound : (Fetch.run w.source s options.markup).1 with
  | error e =>
    rw [hfound] at h
    cases h
  | ok found =>
    rw [hfound] at h
    dsimp only at h
    refine ⟨found, rfl, ?_⟩
    split at h
    · next e he =>
      cases h
      obtain ⟨store, hcache, hget, hc⟩ := entry_of_lookUp he
      rw [halike.cache] at hcache hc
      rw [hcache] at hc
      exact ⟨rfl, .stored hcache hget (Option.some.inj hc).symm rfl rfl rfl rfl⟩
    · obtain ⟨hcompile, hlocation, hc⟩ := isCompile_of_compile h
      rw [(alike_lookUp _ s _).compiler, halike.compiler, ← hname] at hcompile
      rw [halike.cache] at hc
      exact ⟨hlocation, .compiled hcompile hc⟩

end Workshop

namespace History

/-! ## Histories -/

/-- The sources, graphs and stored compiles of a while. -/
structure State where
  workshop : Workshop
  /-- The graphs that were resolved, with their code as far as somebody has waited for it. -/
  graphs : List Graph := []
  /-- The sources at the time of each resolution, and its options. -/
  resolved : List (Source × Compile.Options) := []

inductive Action where
  /-- Texts are changed, added or removed. -/
  | edit (source : Source)
  | resolve (skip : Specifier → Bool) (limit : Nat) (options : Compile.Options)
      (entries : List Specifier)
  /-- The code of a resolved graph is waited for, and stored. -/
  | wait (graph : Nat)
  /-- All stored compiles are forgotten. -/
  | discard
  | refresh (on : Bool)

namespace State

/-- Resolves a graph. A failure leaves none. -/
def resolve (x : State) (skip : Specifier → Bool) (limit : Nat) (options : Compile.Options)
    (entries : List Specifier) : State where
  workshop := (x.workshop.resolve skip limit options entries).2
  graphs := x.graphs ++ (x.workshop.resolve skip limit options entries).1.toOption.toList
  resolved := x.resolved ++ [(x.workshop.source, options)]

/-- Waits for the code of a graph. -/
def wait (x : State) (i : Nat) : State :=
  match x.graphs[i]? with
  | none => x
  | some g =>
    { x with
      workshop := (x.workshop.awaitCode g).2
      graphs := x.graphs.set i (x.workshop.awaitCode g).1.1 }

end State

def act (x : State) : Action → State
  | .edit source => { x with workshop := { x.workshop with source } }
  | .resolve skip limit options entries => x.resolve skip limit options entries
  | .wait i => x.wait i
  | .discard => { x with workshop := x.workshop.discardCache }
  | .refresh on => { x with workshop := { x.workshop with refresh := on } }

def run (x : State) (actions : List Action) : State := actions.foldl act x

/-- A compile was made of what was found for `s` in a source that was resolved. -/
def Origin (compiler : Compile.Compiler) (resolved : List (Source × Compile.Options))
    (s : Specifier) (e : Cache.Entry) : Prop :=
  ∃ p ∈ resolved, ∃ found, (Fetch.run p.1 s p.2.markup).1 = .ok found ∧
    e.checksum = Cache.Checksum.compute found.text p.2 ∧
    compiler ⟨s, found.location, found.text, p.2⟩ = (.ok e.code, some e.report)

theorem Origin.mono {compiler : Compile.Compiler} {resolved more : List (Source × Compile.Options)}
    {s : Specifier} {e : Cache.Entry} (h : Origin compiler resolved s e)
    (hsub : resolved ⊆ more) : Origin compiler more s e := by
  obtain ⟨p, hp, found, hrest⟩ := h
  exact ⟨p, hsub hp, found, hrest⟩

/-- What holds of stored compiles, and of those that wait to be stored. -/
structure Sound (compiler : Compile.Compiler) (database : Bool) (x : State) : Prop where
  compiler_eq : x.workshop.compiler = compiler
  kind : ∀ store, x.workshop.cache = some store → store.isDatabase = database
  stored : ∀ store, x.workshop.cache = some store → ∀ s e, store.get? s = .ok (some e) →
    Origin compiler x.resolved s e
  waiting : ∀ g ∈ x.graphs, ∀ r ∈ g.records, ∀ c code, r.checksum? = some c →
    r.outcome = .ok code → Origin compiler x.resolved r.specifier ⟨c, r.report, code⟩

variable {compiler : Compile.Compiler} {database : Bool} {x : State}

/-- The compiles of a history can be held by a database. -/
def Fits (compiler : Compile.Compiler) (database : Bool)
    (resolved : List (Source × Compile.Options)) : Prop :=
  database = true → ∀ s e, Origin compiler resolved s e → e.Fits

/-! ## What a history preserves -/

theorem sound_edit (h : Sound compiler database x) (source : Source) :
    Sound compiler database (act x (.edit source)) := ⟨h.compiler_eq, h.kind, h.stored, h.waiting⟩

theorem sound_refresh (h : Sound compiler database x) (on : Bool) :
    Sound compiler database (act x (.refresh on)) := ⟨h.compiler_eq, h.kind, h.stored, h.waiting⟩

theorem sound_discard (h : Sound compiler database x) :
    Sound compiler database (act x .discard) := by
  have hcompiler : x.workshop.discardCache.compiler = x.workshop.compiler := by
    unfold Workshop.discardCache
    split <;> rfl
  have hcache : ∀ store, x.workshop.discardCache.cache = some store →
      ∃ old, x.workshop.cache = some old ∧ store = old.discard.1 := by
    intro store hs
    unfold Workshop.discardCache at hs
    split at hs
    · next hn =>
      rw [hn] at hs
      cases hs
    · next old ho => exact ⟨old, ho, (Option.some.inj hs).symm⟩
  refine ⟨hcompiler.trans h.compiler_eq, ?_, ?_, h.waiting⟩
  · intro store hs
    obtain ⟨old, ho, rfl⟩ := hcache store hs
    rw [Cache.Store.isDatabase_discard]
    exact h.kind old ho
  · intro store hs s e he
    obtain ⟨old, -, rfl⟩ := hcache store hs
    rw [Cache.Store.get?_discard] at he
    cases he

/-- A record with a checksum was just compiled, of what is found for it now. -/
theorem origin_of_made {w : Workshop} {resolved : List (Source × Compile.Options)}
    {options : Compile.Options} {found : Fetch.Found} {r : CompiledRecord}
    (hfound : (Fetch.run w.source r.specifier options.markup).1 = .ok found)
    (h : w.Made options found r) {c : Cache.Checksum} {code : String} (hc : r.checksum? = some c)
    (ho : r.outcome = .ok code) :
    Origin w.compiler (resolved ++ [(w.source, options)]) r.specifier ⟨c, r.report, code⟩ := by
  cases h with
  | stored _ _ _ _ _ hn _ =>
    rw [hn] at hc
    cases hc
  | compiled hcompile hsum =>
    refine ⟨(w.source, options), List.mem_append_right _ (List.mem_singleton.2 rfl), found, hfound,
      ?_, hcompile.compiler_eq ho⟩
    rw [hsum] at hc
    cases hw : w.cache with
    | none => simp [hw] at hc
    | some store =>
      rw [hw] at hc
      exact (Option.some.inj hc).symm

theorem sound_resolve (h : Sound compiler database x) (skip : Specifier → Bool) (limit : Nat)
    (options : Compile.Options) (entries : List Specifier) :
    Sound compiler database (x.resolve skip limit options entries) := by
  have halike : (x.workshop.resolve skip limit options entries).2.Alike x.workshop :=
    Resolving.alike_run skip options _ x.workshop
  have hsub : x.resolved ⊆ x.resolved ++ [(x.workshop.source, options)] :=
    List.subset_append_left _ _
  constructor
  · exact halike.compiler.trans h.compiler_eq
  · intro store hs
    exact h.kind store (halike.cache ▸ hs)
  · intro store hs s e he
    exact (h.stored store (halike.cache ▸ hs) s e he).mono hsub
  · intro g hg r hr c code hc ho
    rcases List.mem_append.1 hg with hg | hg
    · exact (h.waiting g hg r hr c code hc ho).mono hsub
    · cases hres : (x.workshop.resolve skip limit options entries).1 with
      | error e => simp [hres, Except.toOption] at hg
      | ok g' =>
        obtain rfl : g = g' := by simpa [hres, Except.toOption] using hg
        obtain ⟨found, hfound, -, hmade⟩ :=
          Workshop.made_of_outcomes ((Workshop.resolve_wanted hres).2 r hr)
        exact h.compiler_eq ▸ origin_of_made hfound hmade hc ho

/-- Storing a record of which the origin is known. -/
theorem sound_store (h : Sound compiler database x) (hfits : Fits compiler database x.resolved)
    {r : CompiledRecord} (hr : ∀ c code, r.checksum? = some c → r.outcome = .ok code →
      Origin compiler x.resolved r.specifier ⟨c, r.report, code⟩) :
    Sound compiler database { x with workshop := x.workshop.store r } := by
  unfold Workshop.store
  split
  · next store c code hcache hc hcode =>
    have ho : r.outcome = .ok code := by
      unfold CompiledRecord.readyCode? at hcode
      split at hcode
      · next ho =>
        rw [ho, Option.some.inj hcode]
      · cases hcode
    have hnew := hr c code hc ho
    have hholds : store.Holds ⟨c, r.report, code⟩ :=
      fun hd => hfits ((h.kind store hcache).symm.trans hd) _ _ hnew
    refine ⟨h.compiler_eq, ?_, ?_, h.waiting⟩
    · rintro _ ⟨⟩
      rw [Cache.Store.isDatabase_put]
      exact h.kind store hcache
    · rintro _ ⟨⟩ s e he
      rw [Cache.Store.get?_put hholds] at he
      split at he
      · next hs =>
        cases he
        exact hs ▸ hnew
      · exact h.stored store hcache s e he
  · exact h

theorem sound_foldl_store (hfits : Fits compiler database x.resolved) (rs : List CompiledRecord)
    (hrs : ∀ r ∈ rs, ∀ c code, r.checksum? = some c → r.outcome = .ok code →
      Origin compiler x.resolved r.specifier ⟨c, r.report, code⟩) {w : Workshop}
    (h : Sound compiler database { x with workshop := w }) :
    Sound compiler database { x with workshop := rs.foldl Workshop.store w } := by
  induction rs generalizing w with
  | nil => exact h
  | cons r rs ih =>
    exact ih (fun q hq => hrs q (List.mem_cons_of_mem _ hq))
      (sound_store h hfits (hrs r List.mem_cons_self))

theorem sound_wait (h : Sound compiler database x) (hfits : Fits compiler database x.resolved)
    (i : Nat) : Sound compiler database (x.wait i) := by
  unfold State.wait
  cases hi : x.graphs[i]? with
  | none => exact h
  | some g =>
    have hg : g ∈ x.graphs := List.mem_of_getElem? hi
    -- Waiting changes nothing but who has waited.
    have horigin : ∀ r ∈ g.awaitCode.1.records, ∀ c code, r.checksum? = some c →
        r.outcome = .ok code → Origin compiler x.resolved r.specifier ⟨c, r.report, code⟩ := by
      intro r hr c code hc ho
      obtain ⟨q, hq, rfl | rfl⟩ := Graph.mem_awaitRecords hr
      · exact h.waiting g hg _ hq c code hc ho
      · exact h.waiting g hg q hq c code hc ho
    have hstored := sound_foldl_store hfits
      ((g.records.zip g.awaitCode.1.records).filterMap fun p =>
        if p.1.awaited then none else some p.2)
      (fun r hr => by
        obtain ⟨⟨old, new⟩, hmem, hnew⟩ := List.mem_filterMap.1 hr
        obtain rfl : new = r := by
          dsimp only at hnew
          split at hnew
          · cases hnew
          · exact Option.some.inj hnew
        exact horigin new (List.of_mem_zip hmem).2)
      h
    refine ⟨hstored.compiler_eq, hstored.kind, hstored.stored, ?_⟩
    intro g' hg' r hr
    rcases List.mem_or_eq_of_mem_set hg' with hg' | rfl
    · exact h.waiting g' hg' r hr
    · exact horigin r hr

theorem resolved_wait (x : State) (i : Nat) : (x.wait i).resolved = x.resolved := by
  unfold State.wait
  split <;> rfl

theorem sound_act (h : Sound compiler database x) (a : Action)
    (hfits : Fits compiler database (act x a).resolved) :
    Sound compiler database (act x a) := by
  cases a with
  | edit source => exact sound_edit h source
  | resolve skip limit options entries => exact sound_resolve h skip limit options entries
  | wait i => exact sound_wait h (by rwa [act, resolved_wait] at hfits) i
  | discard => exact sound_discard h
  | refresh on => exact sound_refresh h on

theorem resolved_act (x : State) (a : Action) : x.resolved ⊆ (act x a).resolved := by
  cases a with
  | resolve skip limit options entries => exact List.subset_append_left _ _
  | wait i => exact (resolved_wait x i).symm ▸ List.Subset.refl _
  | edit source => exact List.Subset.refl _
  | discard => exact List.Subset.refl _
  | refresh on => exact List.Subset.refl _

theorem resolved_run (x : State) (actions : List Action) :
    x.resolved ⊆ (run x actions).resolved := by
  unfold run
  induction actions generalizing x with
  | nil => exact List.Subset.refl _
  | cons a actions ih => exact List.Subset.trans (resolved_act x a) (ih _)

/-- A history keeps what holds of stored compiles. -/
theorem sound_run (h : Sound compiler database x) (actions : List Action)
    (hfits : Fits compiler database (run x actions).resolved) :
    Sound compiler database (run x actions) := by
  unfold run at hfits ⊢
  induction actions generalizing x with
  | nil => exact h
  | cons a actions ih =>
    refine ih (sound_act h a fun hd s e ho => hfits hd s e ?_) hfits
    exact ho.mono (resolved_run (act x a) actions)

/-! ## What a resolution returns -/

/-- Of what was found for one module, no two texts have the same checksum under options unless both
are the same. -/
def Distinct (resolved : List (Source × Compile.Options)) : Prop :=
  ∀ p ∈ resolved, ∀ q ∈ resolved, ∀ s f h, (Fetch.run p.1 s p.2.markup).1 = .ok f →
    (Fetch.run q.1 s q.2.markup).1 = .ok h →
    Cache.Checksum.compute f.text p.2 = Cache.Checksum.compute h.text q.2 →
    f.text = h.text ∧ p.2 = q.2

/-- The text of a module was found at a location when sources were resolved under options. -/
def FoundAt (resolved : List (Source × Compile.Options)) (options : Compile.Options)
    (s : Specifier) (location text : String) : Prop :=
  ∃ source, (source, options) ∈ resolved ∧
    (Fetch.run source s options.markup).1 = .ok ⟨location, text⟩

theorem sound_start {w : Workshop}
    (hkind : ∀ store, w.cache = some store → store.isDatabase = database)
    (hempty : ∀ store, w.cache = some store → ∀ s, store.get? s = .ok none) :
    Sound w.compiler database { workshop := w } := by
  refine ⟨rfl, hkind, ?_, by rintro _ ⟨⟩⟩
  intro store hs s e he
  rw [hempty store hs s] at he
  cases he

theorem isCompile_of_resolve (h : Sound compiler database x) {skip : Specifier → Bool}
    {limit : Nat} {options : Compile.Options} {entries : List Specifier} {g : Graph}
    (hdistinct : Distinct (x.resolved ++ [(x.workshop.source, options)]))
    (hg : (x.workshop.resolve skip limit options entries).1 = .ok g) {r : CompiledRecord}
    (hr : r ∈ g.records) :
    ∃ found, (Fetch.run x.workshop.source r.specifier options.markup).1 = .ok found ∧
      r.location = found.location ∧
      ∃ location, r.IsCompile compiler ⟨r.specifier, location, found.text, options⟩ ∧
        (location = found.location ∨
          r.cached = true ∧ FoundAt x.resolved options r.specifier location found.text) := by
  obtain ⟨found, hfound, hlocation, hmade⟩ :=
    Workshop.made_of_outcomes ((Workshop.resolve_wanted hg).2 r hr)
  refine ⟨found, hfound, hlocation, ?_⟩
  cases hmade with
  | compiled hcompile _ =>
    rw [h.compiler_eq] at hcompile
    exact ⟨found.location, hcompile, Or.inl rfl⟩
  | @stored store e hcache hget hsum hreport houtcome _ hcached =>
    obtain ⟨⟨source, o⟩, hp, was, hwas, hold, hcompile⟩ := h.stored store hcache _ e hget
    have hnow : (x.workshop.source, options) ∈ x.resolved ++ [(x.workshop.source, options)] :=
      List.mem_append_right _ (List.mem_singleton.2 rfl)
    -- The checksums agree, and so do texts and options; the location is not part of a checksum.
    obtain ⟨htext, rfl⟩ := hdistinct _ (List.mem_append_left _ hp) _ hnow _ was found hwas hfound
      (hold.symm.trans hsum)
    dsimp only at hwas hcompile
    rw [htext] at hcompile
    refine ⟨was.location, ⟨?_, ?_⟩, Or.inr ⟨hcached, source, hp, ?_⟩⟩
    · rw [hcompile, hreport]
    · rw [hcompile, houtcome]
      rfl
    · rw [hwas, ← htext]

/-- Behind any history of a store that was empty: every record that is resolved has the report and
the code that the compiler makes of the text that is found now, under the options, either where it
is found now or, for a stored compile, where a resolution under the options has found the same text
before. -/
theorem records_are_compiles {start : Workshop} {actions : List Action}
    {skip : Specifier → Bool} {limit : Nat} {options : Compile.Options} {entries : List Specifier}
    {g : Graph} (hkind : ∀ store, start.cache = some store → store.isDatabase = database)
    (hempty : ∀ store, start.cache = some store → ∀ s, store.get? s = .ok none)
    (hx : run { workshop := start } actions = x)
    (hfits : Fits start.compiler database x.resolved)
    (hdistinct : Distinct (x.resolved ++ [(x.workshop.source, options)]))
    (hg : (x.workshop.resolve skip limit options entries).1 = .ok g) :
    ∀ r ∈ g.records, ∃ found,
      (Fetch.run x.workshop.source r.specifier options.markup).1 = .ok found ∧
      r.location = found.location ∧
      ∃ location, r.IsCompile start.compiler ⟨r.specifier, location, found.text, options⟩ ∧
        (location = found.location ∨
          r.cached = true ∧ FoundAt x.resolved options r.specifier location found.text) := by
  subst hx
  exact fun _ => isCompile_of_resolve (sound_run (sound_start hkind hempty) actions hfits)
    hdistinct hg

/-- As long as resolutions under the same options have found a text nowhere but where it is found
now, stored compiles make no difference to what is resolved. -/
theorem records_are_compiles_where_found {start : Workshop} {actions : List Action}
    {skip : Specifier → Bool} {limit : Nat} {options : Compile.Options} {entries : List Specifier}
    {g : Graph} (hkind : ∀ store, start.cache = some store → store.isDatabase = database)
    (hempty : ∀ store, start.cache = some store → ∀ s, store.get? s = .ok none)
    (hx : run { workshop := start } actions = x)
    (hfits : Fits start.compiler database x.resolved)
    (hdistinct : Distinct (x.resolved ++ [(x.workshop.source, options)]))
    (hplace : ∀ s found location,
      (Fetch.run x.workshop.source s options.markup).1 = .ok found →
      FoundAt x.resolved options s location found.text → location = found.location)
    (hg : (x.workshop.resolve skip limit options entries).1 = .ok g) :
    ∀ r ∈ g.records, ∃ found,
      (Fetch.run x.workshop.source r.specifier options.markup).1 = .ok found ∧
      r.location = found.location ∧
      r.IsCompile start.compiler ⟨r.specifier, found.location, found.text, options⟩ := by
  subst hx
  intro r hr
  obtain ⟨found, hfound, hlocation, location, hcompile, rfl | ⟨-, hold⟩⟩ :=
    isCompile_of_resolve (sound_run (sound_start hkind hempty) actions hfits) hdistinct hg hr
  · exact ⟨found, hfound, hlocation, hcompile⟩
  · exact ⟨found, hfound, hlocation, hplace _ _ _ hfound hold ▸ hcompile⟩

/-! ## A text that moves -/

/-- A text whose import is one of types only, if the text is one with types. -/
def movedText : String := "import \x7b x \x7d from './x';\nexport const a = 1;\n"

/-- Sources with that text alone. -/
def movedTo (location : String) : Source :=
  MemorySource.source { files := [(location, movedText)] }

theorem text_of_movedTo {location : String} {s : Specifier} {markup : Bool} {found : Fetch.Found}
    (h : (Fetch.run (movedTo location) s markup).1 = .ok found) : found.text = movedText := by
  have hget := Fetch.retrieve_of_run h
  simp only [movedTo, MemorySource.source, MemorySource.answer, Keyed.get?] at hget
  split at hget
  · next ht =>
    split at ht
    · cases ht
      exact (Except.ok.inj hget).symm
    · cases ht
  · cases hget

/-- The text is resolved at one location and stored; then it is moved to another one. -/
def moved : State :=
  run { workshop :=
          { source := movedTo "/a.ts", compiler := Compile.compile, cache := some (.memory {}) } }
    [.resolve (fun _ => false) 10 {} [⟨"/a"⟩], .wait 0, .edit (movedTo "/a.js")]

theorem resolved_moved : moved.resolved = [(movedTo "/a.ts", {})] := by
  simp [moved, run, act, resolved_wait, State.resolve]

theorem distinct_moved :
    Distinct (moved.resolved ++ [(moved.workshop.source, ({} : Compile.Options))]) := by
  have hall : ∀ p ∈ moved.resolved ++ [(moved.workshop.source, ({} : Compile.Options))],
      ∃ location, p = (movedTo location, ({} : Compile.Options)) := by
    intro p hp
    rw [resolved_moved] at hp
    rcases List.mem_append.1 hp with hp | hp
    · exact ⟨"/a.ts", List.mem_singleton.1 hp⟩
    · exact ⟨"/a.js", List.mem_singleton.1 hp⟩
  intro p hp q hq s f h hf hh _
  obtain ⟨_, rfl⟩ := hall p hp
  obtain ⟨_, rfl⟩ := hall q hq
  exact ⟨(text_of_movedTo hf).trans (text_of_movedTo hh).symm, rfl⟩

theorem exists_of_map_eq_ok {α β ε : Type} {x : Except ε α} {f : α → β} {b : β}
    (h : x.map f = .ok b) : ∃ a, x = .ok a ∧ f a = b := by
  cases x with
  | error e => cases h
  | ok a => exact ⟨a, rfl, Except.ok.inj h⟩

theorem records_moved : (moved.workshop.resolve (fun _ => false) 10 {} [⟨"/a"⟩]).1.map (fun g =>
    g.records.map fun r => (r.specifier, r.location, r.report.static)) =
      .ok [(⟨"/a"⟩, "/a.js", [])] := by decide +kernel

/-- What is resolved then is the compile of where the text was, which lacks the dependency. -/
theorem moved_text_is_not_compiled_again :
    ∃ g r, (moved.workshop.resolve (fun _ => false) 10 {} [⟨"/a"⟩]).1 = .ok g ∧ r ∈ g.records ∧
      r.location = "/a.js" ∧ r.report.static = [] ∧
      ((Compile.compile ⟨r.specifier, "/a.js", movedText, {}⟩).2.map (·.static)) = some [⟨"/x"⟩] ∧
      ∃ location, location ≠ "/a.js" ∧
        r.IsCompile Compile.compile ⟨r.specifier, location, movedText, {}⟩ ∧
        FoundAt moved.resolved {} r.specifier location movedText := by
  have hcompile : (Compile.compile ⟨⟨"/a"⟩, "/a.js", movedText, {}⟩).2.map (·.static) =
      some [⟨"/x"⟩] := by decide +kernel
  obtain ⟨g, hg, hlist⟩ := exists_of_map_eq_ok records_moved
  obtain ⟨r, hr, hfields⟩ := List.mem_map.1 (hlist ▸ List.mem_singleton.2 rfl)
  obtain ⟨hname, hlocation, hstatic⟩ : r.specifier = ⟨"/a"⟩ ∧ r.location = "/a.js" ∧
      r.report.static = [] := by simpa using hfields
  obtain ⟨found, hfound, hnow, location, hmade, hplace⟩ :=
    records_are_compiles (by rintro _ ⟨⟩; rfl) (by rintro _ ⟨⟩ _; rfl) (Eq.refl moved)
      (fun hd => by cases hd) distinct_moved hg r hr
  rw [text_of_movedTo hfound] at hmade hplace
  have hne : location ≠ "/a.js" := by
    rintro rfl
    rw [← hname, hmade.report] at hcompile
    cases hstatic.symm.trans (Option.some.inj hcompile)
  obtain hhere | ⟨-, hbefore⟩ := hplace
  · exact absurd (hhere.trans (hnow.symm.trans hlocation)) hne
  · exact ⟨g, r, hg, hr, hlocation, hstatic, hname ▸ hcompile, location, hne, hmade, hbefore⟩

end History

end ScriptLoader
