import Mathlib.Data.List.Chain
import ScriptLoader.Proofs.Loader.Adoption

/-!
# The modules that are taken into a graph

A request goes through the modules that its entry depends on, from one record to the static
dependencies that it names, and takes prepared records into its graph as it meets them. So the graph
in which it looks for records grows while it goes on. It stops at what is loaded, and at what has
neither a record in the graph nor one that was prepared under its options.

* `Loader.Taking.next`: one step of that. `Loader.ends_visit`: it comes to an end, with what a walk
  over the records at hand at the outset visits.
* `Loader.StaticPath`: a path of static dependencies that a request can go along.
* `Loader.adopt_takes_closure`: the graph keeps its records, and behind them stand the prepared
  records that it lacked at the ends of such paths, and no others.
-/

namespace ScriptLoader.Loader

variable {F σ : Type} {l : Loader F σ} {options : Compile.Options} {entry s : Specifier} {g : Graph}

/-! ## Taking records in -/

/-- The prepared record of a module that a graph lacks. -/
def lacked? (l : Loader F σ) (options : Compile.Options) (g : Graph) (s : Specifier) :
    Option CompiledRecord := if g.contains s then none else l.preparedRecord? options s

/-- A graph with the prepared record of a module, if it lacks one. -/
def takeIn (l : Loader F σ) (options : Compile.Options) (g : Graph) (s : Specifier) : Graph :=
  (l.lacked? options g s).elim g g.insert

/-- A graph behind the taking in of the prepared records of modules. -/
def taken (l : Loader F σ) (options : Compile.Options) (g : Graph) (modules : List Specifier) :
    Graph := (modules.filterMap (l.lacked? options g)).foldl Graph.insert g

theorem lacked?_eq_some_iff {r : CompiledRecord} : l.lacked? options g s = some r ↔
    g.contains s = false ∧ l.preparedRecord? options s = some r := by
  unfold lacked?
  cases g.contains s <;> simp

theorem lacked?_of_available?_eq_none (h : l.available? options g s = none) :
    l.lacked? options g s = none := by
  unfold lacked?
  split
  · rfl
  · exact (Option.or_eq_none_iff.1 h).2

theorem taken_append (modules : List Specifier) (s : Specifier) :
    l.taken options g (modules ++ [s]) =
      (l.lacked? options g s).elim (l.taken options g modules)
        (l.taken options g modules).insert := by
  unfold taken
  rw [List.filterMap_append, List.foldl_append, List.filterMap_cons, List.filterMap_nil]
  cases l.lacked? options g s <;> rfl

section

variable (hnamed : ∀ s p, l.prepared.get? s = some p → p.record.specifier = s)

include hnamed

theorem specifier_of_lacked? {r : CompiledRecord} (h : l.lacked? options g s = some r) :
    r.specifier = s :=
  hnamed s _ (preparedRecord?_eq_some_iff.1 (lacked?_eq_some_iff.1 h).2)

theorem get?_taken_of_notMem {modules : List Specifier} (hs : s ∉ modules) :
    (l.taken options g modules).get? s = g.get? s := by
  unfold taken
  rw [Graph.get?_insertAll, List.find?_eq_none.2, Option.or_none]
  intro r hr hrs
  obtain ⟨t, ht, hlacked⟩ := List.mem_filterMap.1 hr
  rw [specifier_of_lacked? hnamed hlacked] at hrs
  exact hs (of_decide_eq_true hrs ▸ ht)

/-- A graph that grew by other modules still lacks the record of a module if it lacked it. -/
theorem takeIn_taken {modules : List Specifier} (hs : s ∉ modules) :
    l.takeIn options (l.taken options g modules) s = l.taken options g (modules ++ [s]) := by
  have hlacked : l.lacked? options (l.taken options g modules) s = l.lacked? options g s := by
    rw [lacked?, lacked?, Graph.contains, get?_taken_of_notMem hnamed hs, Graph.contains]
  rw [takeIn, hlacked, taken_append]

theorem get?_taken_append {modules : List Specifier} (hs : s ∉ modules) :
    (l.taken options g (modules ++ [s])).get? s = l.available? options g s := by
  have hget : (l.taken options g modules).get? s = g.get? s := get?_taken_of_notMem hnamed hs
  rw [taken_append]
  unfold lacked? available?
  by_cases hc : g.contains s = true
  · obtain ⟨r, hr⟩ := Option.isSome_iff_exists.1 hc
    rw [if_pos hc, Option.elim_none, hget, hr, Option.some_or]
  · have hnone : g.get? s = none := by simpa [Graph.contains] using hc
    rw [if_neg hc]
    cases hr : l.preparedRecord? options s with
    | none => rw [Option.elim_none, hget, hnone, Option.none_or]
    | some r =>
      have hname := hnamed s _ (preparedRecord?_eq_some_iff.1 hr)
      rw [Option.elim_some, Graph.get?_insert, hget, hnone, if_pos hname]

end

/-! ## Step by step -/

/-- How far the taking in is: the modules that were looked at, those that it goes on to, the last
one of their list first, and the graph so far. -/
structure Taking where
  seen : List Specifier := []
  stack : List Specifier
  graph : Graph

/-- Goes on to the next module, unless there is none. -/
def Taking.next (l : Loader F σ) (options : Compile.Options) (t : Taking) : Option Taking :=
  match t.stack with
  | [] => none
  | s :: rest =>
    if t.seen.contains s then some { t with stack := rest }
    else if l.registry.isLoaded s then some ⟨t.seen ++ [s], rest, t.graph⟩
    else
      let graph := l.takeIn options t.graph s
      match graph.get? s with
      | none => some ⟨t.seen ++ [s], rest, graph⟩
      | some r => some ⟨t.seen ++ [s], r.report.static.reverse ++ rest, graph⟩

/-- The taking in ends after a number of steps, with a graph. -/
inductive Ends (l : Loader F σ) (options : Compile.Options) : Nat → Taking → Graph → Prop where
  | done {t : Taking} : t.next l options = none → Ends l options 0 t t.graph
  | next {n : Nat} {t u : Taking} {g : Graph} : t.next l options = some u → Ends l options n u g →
    Ends l options (n + 1) t g

/-- The taking in stops only where nothing is left to go on to. -/
theorem Taking.next_eq_none_iff {t : Taking} : t.next l options = none ↔ t.stack = [] := by
  unfold Taking.next
  split
  · next hstack => exact iff_of_true rfl hstack
  · next hstack =>
    rw [hstack]
    refine iff_of_false ?_ (List.cons_ne_nil _ _)
    split
    · exact Option.some_ne_none _
    · split
      · exact Option.some_ne_none _
      · dsimp only
        split <;> exact Option.some_ne_none _

section

variable {seen rest : List Specifier}

theorem next_seen (hs : s ∈ seen) :
    Taking.next l options ⟨seen, s :: rest, g⟩ = some ⟨seen, rest, g⟩ := by
  simp [Taking.next, hs]

/-- A module without a record, or one that is loaded, is left alone. -/
theorem next_passed (hs : s ∉ seen)
    (h : l.registry.isLoaded s = true ∨ (l.takeIn options g s).get? s = none ∧
      l.takeIn options g s = g) :
    Taking.next l options ⟨seen, s :: rest, g⟩ = some ⟨seen ++ [s], rest, g⟩ := by
  rcases h with h | ⟨hnone, hsame⟩
  · simp [Taking.next, hs, h]
  · rw [hsame] at hnone
    simp [Taking.next, hs, hsame, hnone]

theorem next_record {r : CompiledRecord} (hs : s ∉ seen) (hl : l.registry.isLoaded s = false)
    (hr : (l.takeIn options g s).get? s = some r) :
    Taking.next l options ⟨seen, s :: rest, g⟩ =
      some ⟨seen ++ [s], r.report.static.reverse ++ rest, l.takeIn options g s⟩ := by
  simp [Taking.next, hs, hl, hr]

end

/-- The taking in ends, and takes in what the walk over the table of records visits. What it looks
at besides has no entry in that table: it is loaded, or has no record. -/
theorem ends_visit (hnodup : (Keyed.keys l.prepared).Nodup)
    (hnamed : ∀ s p, l.prepared.get? s = some p → p.record.specifier = s)
    (options : Compile.Options) (g : Graph) (visited stack seen : List Specifier)
    (hseen : ∀ s, s ∈ visited ↔ s ∈ seen ∧ ((l.recordTable options g).get? s).isSome = true) :
    ∃ n ≤ Closure.ahead visited (l.recordTable options g) + stack.length,
      Ends l options n ⟨seen, stack, l.taken options g visited⟩
        (l.taken options g (Closure.visit (l.recordTable options g) visited stack)) := by
  have htable : ∀ s, (l.recordTable options g).get? s =
      if l.registry.isLoaded s then none else l.static? options g s :=
    get?_recordTable_of_named hnodup hnamed
  fun_induction Closure.visit (l.recordTable options g) visited stack generalizing seen with
  | case1 visited => exact ⟨0, Nat.zero_le _, .done rfl⟩
  | case2 visited s rest hv ih =>
    obtain ⟨n, hn, hends⟩ := ih seen hseen
    have hs : s ∈ seen := ((hseen s).1 (by simpa using hv)).1
    exact ⟨n + 1, by simp only [List.length_cons]; omega, .next (next_seen hs) hends⟩
  | case3 visited s rest hv hnone ih =>
    by_cases hs : s ∈ seen
    · obtain ⟨n, hn, hends⟩ := ih seen hseen
      exact ⟨n + 1, by simp only [List.length_cons]; omega, .next (next_seen hs) hends⟩
    · have hv : s ∉ visited := by simpa using hv
      have hlooked : ∀ t, t ∈ visited ↔
          t ∈ seen ++ [s] ∧ ((l.recordTable options g).get? t).isSome = true := by
        intro t
        rw [hseen t, List.mem_append, List.mem_singleton]
        constructor
        · rintro ⟨ht, hsome⟩
          exact ⟨.inl ht, hsome⟩
        · rintro ⟨ht | rfl, hsome⟩
          · exact ⟨ht, hsome⟩
          · simp [hnone] at hsome
      obtain ⟨n, hn, hends⟩ := ih (seen ++ [s]) hlooked
      refine ⟨n + 1, by simp only [List.length_cons]; omega, .next (next_passed hs ?_) hends⟩
      rw [htable] at hnone
      by_cases hl : l.registry.isLoaded s = true
      · exact .inl hl
      · rw [if_neg hl, static?, Option.map_eq_none_iff] at hnone
        have hsame : l.taken options g (visited ++ [s]) = l.taken options g visited := by
          rw [taken_append, lacked?_of_available?_eq_none hnone, Option.elim_none]
        rw [takeIn_taken hnamed hv, get?_taken_append hnamed hv]
        exact .inr ⟨hnone, hsame⟩
  | case4 visited s rest hv next hnext ih =>
    have hahead := Closure.ahead_visit hnext (by simpa using hv)
    have hv : s ∉ visited := by simpa using hv
    have hs : s ∉ seen := fun hs => hv ((hseen s).2 ⟨hs, by rw [hnext]; rfl⟩)
    have hlooked : ∀ t, t ∈ visited ++ [s] ↔
        t ∈ seen ++ [s] ∧ ((l.recordTable options g).get? t).isSome = true := by
      intro t
      rw [List.mem_append, List.mem_append, List.mem_singleton, hseen t]
      constructor
      · rintro (⟨ht, hsome⟩ | rfl)
        · exact ⟨.inl ht, hsome⟩
        · exact ⟨.inr rfl, by rw [hnext]; rfl⟩
      · rintro ⟨ht | rfl, hsome⟩
        · exact .inl ⟨ht, hsome⟩
        · exact .inr rfl
    obtain ⟨n, hn, hends⟩ := ih (seen ++ [s]) hlooked
    rw [htable] at hnext
    split at hnext
    · cases hnext
    · next hl =>
      obtain ⟨r, hr, rfl⟩ := Option.map_eq_some_iff.1 hnext
      rw [← get?_taken_append hnamed hv, ← takeIn_taken hnamed hv] at hr
      rw [← takeIn_taken hnamed hv] at hends
      refine ⟨n + 1, ?_, .next (next_record hs (by simpa using hl) hr) hends⟩
      simp only [List.length_append, List.length_reverse, List.length_cons] at hn ⊢
      omega

/-! ## Paths -/

/-- A request can go through a module that is not loaded, and that is of its graph or prepared under
its options. -/
structure Passable (l : Loader F σ) (options : Compile.Options) (g : Graph) (s : Specifier) :
    Prop where
  not_loaded : l.registry.isLoaded s = false
  at_hand : g.contains s = true ∨ (l.preparedRecord? options s).isSome = true

/-- A path of static dependencies from an entry to a module, through modules that a request can go
through. -/
structure StaticPath (l : Loader F σ) (options : Compile.Options) (g : Graph)
    (entry s : Specifier) (path : List Specifier) : Prop where
  first : path.head? = some entry
  last : path.getLast? = some s
  linked : path.IsChain fun a b =>
    ∃ r, l.available? options g a = some r ∧ b ∈ r.report.static
  passable : ∀ m ∈ path, l.Passable options g m

theorem isSome_available?_iff : (l.available? options g s).isSome = true ↔
    g.contains s = true ∨ (l.preparedRecord? options s).isSome = true := by
  rw [available?, Option.isSome_or, Bool.or_eq_true, Graph.contains]

theorem StaticPath.concat {d : Specifier} {path : List Specifier} {r : CompiledRecord}
    (h : l.StaticPath options g entry s path) (hr : l.available? options g s = some r)
    (hd : d ∈ r.report.static) (hpassable : l.Passable options g d) :
    l.StaticPath options g entry d (path ++ [d]) where
  first := by
    rw [List.head?_append, h.first]
    rfl
  last := List.getLast?_concat
  linked := by
    refine List.isChain_append.2 ⟨h.linked, List.isChain_singleton d, fun a ha b hb => ?_⟩
    cases h.last.symm.trans ha
    cases Option.some.inj hb
    exact ⟨r, hr, hd⟩
  passable := by
    rw [List.forall_mem_append, List.forall_mem_singleton]
    exact ⟨h.passable, hpassable⟩

section

variable (hnodup : (Keyed.keys l.prepared).Nodup)
  (hnamed : ∀ s p, l.prepared.get? s = some p → p.record.specifier = s)

include hnodup hnamed

/-- The table of records has an entry for each module that a request can go through. -/
theorem get?_recordTable_eq_some_iff {next : List Specifier} :
    (l.recordTable options g).get? s = some next ↔ l.Passable options g s ∧
      ∃ r, l.available? options g s = some r ∧ r.report.static = next := by
  rw [get?_recordTable_of_named hnodup hnamed]
  cases hl : l.registry.isLoaded s with
  | true => exact iff_of_false (by simp) fun h => Bool.false_ne_true (h.1.not_loaded.symm.trans hl)
  | false =>
    rw [if_neg (by decide), static?, Option.map_eq_some_iff]
    refine (and_iff_right_of_imp ?_).symm
    rintro ⟨r, hr, -⟩
    exact ⟨hl, isSome_available?_iff.1 (by rw [hr]; rfl)⟩

theorem Passable.exists_entry (h : l.Passable options g s) :
    ∃ next, (l.recordTable options g).get? s = some next := by
  obtain ⟨r, hr⟩ := Option.isSome_iff_exists.1 (isSome_available?_iff.2 h.at_hand)
  exact ⟨r.report.static, (get?_recordTable_eq_some_iff hnodup hnamed).2 ⟨h, r, hr, rfl⟩⟩

/-- From a module that is reached, a path goes on to modules that are reached. -/
theorem reached_of_linked {a : Specifier} {rest : List Specifier}
    (ha : Closure.Reached (l.recordTable options g) [entry] a)
    (hlast : (a :: rest).getLast? = some s)
    (hlinked : (a :: rest).IsChain fun a b =>
      ∃ r, l.available? options g a = some r ∧ b ∈ r.report.static)
    (hpassable : ∀ m ∈ a :: rest, l.Passable options g m) :
    Closure.Reached (l.recordTable options g) [entry] s := by
  induction rest generalizing a with
  | nil => exact Option.some.inj hlast ▸ ha
  | cons b rest ih =>
    obtain ⟨⟨r, hr, hb⟩, hlinked⟩ := List.isChain_cons_cons.1 hlinked
    obtain ⟨hpa, hpassable⟩ := List.forall_mem_cons.1 hpassable
    obtain ⟨after, hafter⟩ := (hpassable b List.mem_cons_self).exists_entry hnodup hnamed
    have hnext : (l.recordTable options g).get? a = some r.report.static :=
      (get?_recordTable_eq_some_iff hnodup hnamed).2 ⟨hpa, r, hr, rfl⟩
    rw [List.getLast?_cons_cons] at hlast
    exact ih (.next ha hnext hb hafter) hlast hlinked hpassable

/-- Paths lead to what is reached in the table of records. -/
theorem reached_iff : Closure.Reached (l.recordTable options g) [entry] s ↔
    ∃ path, l.StaticPath options g entry s path := by
  constructor
  · intro h
    induction h with
    | @start k next hk hnext =>
      obtain rfl := List.mem_singleton.1 hk
      have hpassable := ((get?_recordTable_eq_some_iff hnodup hnamed).1 hnext).1
      exact ⟨[k], rfl, rfl, List.isChain_singleton k, List.forall_mem_singleton.2 hpassable⟩
    | @next k j next after _ hnext hj hafter ih =>
      obtain ⟨path, hpath⟩ := ih
      obtain ⟨-, r, hr, rfl⟩ := (get?_recordTable_eq_some_iff hnodup hnamed).1 hnext
      have hpassable := ((get?_recordTable_eq_some_iff hnodup hnamed).1 hafter).1
      exact ⟨path ++ [j], hpath.concat hr hj hpassable⟩
  · rintro ⟨path, hfirst, hlast, hlinked, hpassable⟩
    cases path with
    | nil => cases hfirst
    | cons a rest =>
      obtain rfl := Option.some.inj hfirst
      obtain ⟨next, hnext⟩ := (hpassable a List.mem_cons_self).exists_entry hnodup hnamed
      exact reached_of_linked hnodup hnamed (.start (List.mem_singleton.2 rfl) hnext) hlast hlinked
        hpassable

end

/-! ## What is taken -/

/-- Prepared modules, each under its own name; of two modules of one name the later one counts. -/
def filed (modules : List Prepared) : Keyed Specifier Prepared :=
  Keyed.putAll (modules.map fun p => (p.record.specifier, p)) []

theorem filed_concat (modules : List Prepared) (p : Prepared) :
    filed (modules ++ [p]) = (filed modules).put p.record.specifier p := by
  simp [filed, Keyed.putAll]

theorem nodup_filed (modules : List Prepared) : (Keyed.keys (filed modules)).Nodup := by
  induction modules using List.reverseRecOn with
  | nil => exact .nil
  | append_singleton modules p ih =>
    rw [filed_concat]
    exact Keyed.nodup_keys_put ih

theorem named_filed (modules : List Prepared) {p : Prepared}
    (h : (filed modules).get? s = some p) : p.record.specifier = s := by
  induction modules using List.reverseRecOn with
  | nil => cases h
  | append_singleton modules q ih =>
    rw [filed_concat, Keyed.get?_put] at h
    split at h
    · next hs =>
      cases h
      exact hs.symm
    · exact ih h

/-- What becomes of a graph that prepared modules are taken into. -/
structure TakesClosure (l : Loader F σ) (options : Compile.Options) (entry : Specifier)
    (g : Graph) : Prop where
  /-- Going from module to module comes to an end, with the graph. -/
  ends : ∃ n, Ends l options n ⟨[], [entry], g⟩ (l.adopt options entry g).1
  /-- The records of the graph stay where they are, and behind them come, once each, the prepared
  records that it lacked and that a path leads to. -/
  taken : ∃ records, (l.adopt options entry g).1 = { g with records := g.records ++ records } ∧
    (records.map (·.specifier)).Nodup ∧
    ∀ r, r ∈ records ↔ g.contains r.specifier = false ∧
      l.preparedRecord? options r.specifier = some r ∧
      ∃ path, l.StaticPath options g entry r.specifier path
  /-- So the modules of the graph are its own, and the prepared ones that a path leads to. -/
  modules : ∀ s, s ∈ (l.adopt options entry g).1.specifiers ↔ s ∈ g.specifiers ∨
    (l.preparedRecord? options s).isSome = true ∧ ∃ path, l.StaticPath options g entry s path
  /-- Nothing is loaded or forgotten by that. -/
  prepared : (l.adopt options entry g).2.prepared = l.prepared
  registry : (l.adopt options entry g).2.registry = l.registry

section

variable (hnodup : (Keyed.keys l.prepared).Nodup)
  (hnamed : ∀ s p, l.prepared.get? s = some p → p.record.specifier = s)

include hnamed

theorem nodup_missing : ((l.missing options entry g).map (·.specifier)).Nodup := by
  have hnames : (l.missing options entry g).map (·.specifier) =
      (Closure.visit (l.recordTable options g) [] [entry]).filterMap fun s =>
        (l.lacked? options g s).map (·.specifier) := List.map_filterMap
  rw [hnames]
  refine (Closure.nodup_visit _ _).filterMap fun a b name ha hb => ?_
  obtain ⟨r, hr, rfl⟩ := Option.map_eq_some_iff.1 ha
  obtain ⟨q, hq, hname⟩ := Option.map_eq_some_iff.1 hb
  rw [← specifier_of_lacked? hnamed hr, ← hname, specifier_of_lacked? hnamed hq]

include hnodup

theorem mem_missing_iff {r : CompiledRecord} : r ∈ l.missing options entry g ↔
    g.contains r.specifier = false ∧ l.preparedRecord? options r.specifier = some r ∧
      ∃ path, l.StaticPath options g entry r.specifier path := by
  rw [← reached_iff hnodup hnamed, ← Closure.mem_visit_iff, ← and_assoc, ← lacked?_eq_some_iff]
  constructor
  · intro hr
    obtain ⟨s, hs, hlacked : l.lacked? options g s = some r⟩ := List.mem_filterMap.1 hr
    obtain rfl := specifier_of_lacked? hnamed hlacked
    exact ⟨hlacked, hs⟩
  · rintro ⟨hlacked, hs⟩
    exact List.mem_filterMap.2 ⟨r.specifier, hs, hlacked⟩

theorem takesClosure (options : Compile.Options) (entry : Specifier) (g : Graph) :
    l.TakesClosure options entry g := by
  have hnew : ∀ r ∈ l.missing options entry g, r.specifier ∉ g.specifiers := by
    intro r hr hmem
    rw [← Graph.contains_iff, ((mem_missing_iff hnodup hnamed).1 hr).1] at hmem
    cases hmem
  have hgraph : (l.adopt options entry g).1 =
      { g with records := g.records ++ l.missing options entry g } :=
    Graph.insertAll_of_fresh (nodup_missing hnamed) hnew
  refine ⟨?_, ⟨_, hgraph, nodup_missing hnamed, fun r => mem_missing_iff hnodup hnamed⟩, ?_, rfl,
    rfl⟩
  · obtain ⟨n, -, hends⟩ := ends_visit hnodup hnamed options g [] [entry] [] (by simp)
    exact ⟨n, hends⟩
  · intro s
    have hmodules : s ∈ (l.adopt options entry g).1.specifiers ↔ s ∈ g.specifiers ∨
        ∃ r ∈ l.missing options entry g, r.specifier = s := by
      rw [hgraph, Graph.specifiers, List.map_append, List.mem_append,
        List.mem_map (l := l.missing _ _ _)]
      rfl
    rw [hmodules]
    constructor
    · rintro (hs | ⟨r, hr, rfl⟩)
      · exact .inl hs
      · obtain ⟨-, hp, hpath⟩ := (mem_missing_iff hnodup hnamed).1 hr
        exact .inr ⟨by rw [hp]; rfl, hpath⟩
    · rintro (hs | ⟨hp, hpath⟩)
      · exact .inl hs
      · by_cases hs : s ∈ g.specifiers
        · exact .inl hs
        · obtain ⟨r, hr⟩ := Option.isSome_iff_exists.1 hp
          obtain rfl := hnamed s _ (preparedRecord?_eq_some_iff.1 hr)
          have hc : g.contains r.specifier = false := by
            rw [Bool.eq_false_iff]
            exact fun hc => hs (Graph.contains_iff.1 hc)
          exact .inr ⟨r, (mem_missing_iff hnodup hnamed).2 ⟨hc, hr, hpath⟩, rfl⟩

end

/-- Whatever is prepared and loaded, and whatever a graph has: taking prepared modules into it comes
to an end, and the graph then has its own records, and the prepared ones behind paths that a request
can go along. -/
theorem adopt_takes_closure (l : Loader F σ) (modules : List Prepared) (options : Compile.Options)
    (entry : Specifier) (g : Graph) :
    ({ l with prepared := filed modules } : Loader F σ).TakesClosure options entry g :=
  takesClosure (nodup_filed modules) (fun _ _ => named_filed modules) options entry g

end ScriptLoader.Loader
