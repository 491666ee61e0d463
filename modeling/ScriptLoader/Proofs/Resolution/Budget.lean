import Mathlib.Data.Set.Card
import ScriptLoader.Proofs.Resolution.Execution

/-!
# The budget of a resolution

Every completion of an operation takes one of the records that a resolution may take, so a
resolution ends in whatever order its operations complete. What it comes to hangs on the modules
that it wants: with no more of them than its limit it never runs out of budget, and comes to the
same records in every order unless one of them fails; with more it cannot come to a graph. There may
be infinitely many.

* `Resolution.CompletionOrder`, `Course.runBy`: operations that complete in an order, to the end.
  Every end of a course is the end under some order (`Resolution.exists_runBy_eq`).
* `Course.Counted`: the budget that is left and the records that were taken make up the limit.
* `Resolution.returns_cases`: what a course can come to.
* `Resolution.outcome_in_any_order`: what resolutions come to, by the number of wanted modules.
* `Workshop.resolve_notConverged`: when a resolution that is run gives out for lack of budget.
-/

namespace ScriptLoader

namespace Resolution

/-! ## Completing in an order -/

/-- An order of completions: which of the operations in flight completes next. It may hang on
everything that has completed so far. -/
structure CompletionOrder where
  next : Course → Specifier
  next_mem : ∀ c : Course, c.inFlight ≠ [] → next c ∈ c.inFlight

/-- The order in which operations were started. -/
def CompletionOrder.oldestFirst : CompletionOrder where
  next c := c.inFlight.headD default
  next_mem c hc := by
    obtain ⟨s, rest, hs⟩ := List.exists_cons_of_ne_nil hc
    simp [hs]

variable {skip : Specifier → Bool} {outcomes : Outcomes} {entries : List Specifier} {limit : Nat}

/-- What a course comes to when its operations complete in an order, and behind how many
completions. -/
def Course.runBy (skip : Specifier → Bool) (outcomes : Outcomes) (order : CompletionOrder)
    (c : Course) : Except LoadError Graph × Nat :=
  if c.inFlight = [] then (.ok c.resolution.graph, 0)
  else
    match _taken : finish skip (outcomes.of (order.next c)) c.resolution with
    | .error e => (.error e, 1)
    | .ok (next, new) =>
      let (result, n) := Course.runBy skip outcomes order
        ⟨next, c.inFlight.erase (order.next c) ++ new, c.started ++ new⟩
      (result, n + 1)
termination_by c.resolution.budget
decreasing_by exact budget_finish _taken

theorem Course.runBy_of_done {order : CompletionOrder} {c : Course} (h : c.inFlight = []) :
    c.runBy skip outcomes order = (.ok c.resolution.graph, 0) := by
  rw [Course.runBy, if_pos h]

theorem Course.runBy_of_failure {order : CompletionOrder} {c : Course} {e : LoadError}
    (h : c.inFlight ≠ [])
    (hf : finish skip (outcomes.of (order.next c)) c.resolution = .error e) :
    c.runBy skip outcomes order = (.error e, 1) := by
  rw [Course.runBy, if_neg h]
  split
  · next e' he =>
    rw [hf] at he
    cases he
    rfl
  · next hn =>
    rw [hf] at hn
    cases hn

theorem Course.runBy_of_next {order : CompletionOrder} {c : Course} {next : Resolution}
    {new : List Specifier} (h : c.inFlight ≠ [])
    (hf : finish skip (outcomes.of (order.next c)) c.resolution = .ok (next, new)) :
    c.runBy skip outcomes order =
      (fun x => (x.1, x.2 + 1)) (Course.runBy skip outcomes order
        ⟨next, c.inFlight.erase (order.next c) ++ new, c.started ++ new⟩) := by
  rw [Course.runBy, if_neg h]
  split
  · next he =>
    rw [hf] at he
    cases he
  · next hn =>
    rw [hf] at hn
    cases hn
    rfl

/-- In every order the course goes on to one that comes to the result. -/
theorem Course.runBy_returns (skip : Specifier → Bool) (outcomes : Outcomes)
    (order : CompletionOrder) (c : Course) :
    ∃ d, Reaches skip outcomes c d ∧ Returns skip outcomes d (c.runBy skip outcomes order).1 := by
  fun_induction Course.runBy skip outcomes order c with
  | case1 c h => exact ⟨c, .refl c, .graph h⟩
  | case2 c h e he => exact ⟨c, .refl c, .failure (order.next_mem c h) he⟩
  | case3 c h next new hn result n hrun ih =>
    obtain ⟨d, hd, hr⟩ := ih
    rw [hrun] at hr
    exact ⟨d, .trans (.complete (.refl c) (order.next_mem c h) hn) hd, hr⟩

/-- A course ends behind one completion more than its budget at the latest. -/
theorem Course.runBy_le (order : CompletionOrder) (c : Course) :
    (c.runBy skip outcomes order).2 ≤ c.resolution.budget + 1 := by
  fun_induction Course.runBy skip outcomes order c with
  | case1 c h => exact Nat.zero_le _
  | case2 c h e he => exact Nat.le_add_left 1 _
  | case3 c h next new hn result n hrun ih =>
    have hlt : next.budget < c.resolution.budget := budget_finish hn
    have hle : n ≤ next.budget + 1 := by simpa [hrun] using ih
    omega

/-- Only what an order does on courses with less budget than a bound matters for these. -/
theorem Course.runBy_congr {order other : CompletionOrder} {bound : Nat}
    (h : ∀ c : Course, c.resolution.budget < bound → order.next c = other.next c) (c : Course)
    (hc : c.resolution.budget < bound) :
    c.runBy skip outcomes order = c.runBy skip outcomes other := by
  fun_induction Course.runBy skip outcomes order c with
  | case1 c hdone => rw [Course.runBy_of_done hdone]
  | case2 c hc' e he =>
    rw [Course.runBy_of_failure hc' (h c hc ▸ he)]
  | case3 c hc' next new hn result n hrun ih =>
    have hlt : next.budget < c.resolution.budget := budget_finish hn
    have hrest := ih (Nat.lt_trans hlt hc)
    rw [h c hc] at hn hrest hrun
    rw [Course.runBy_of_next hc' hn, ← hrest, hrun]

open Classical in
/-- The order that has a certain operation complete first in one course. -/
noncomputable def CompletionOrder.withFirst (order : CompletionOrder) (c : Course) (s : Specifier)
    (hs : s ∈ c.inFlight) : CompletionOrder where
  next d := if d = c then s else order.next d
  next_mem d hd := by
    split
    · next h => exact h ▸ hs
    · exact order.next_mem d hd

/-- Whatever a course that is reached comes to under an order, the one that it was reached from
comes to it under an order, too. -/
theorem exists_runBy_of_reaches {c d : Course} (h : Reaches skip outcomes c d)
    (order : CompletionOrder) : ∃ other : CompletionOrder,
      (c.runBy skip outcomes other).1 = (d.runBy skip outcomes order).1 := by
  induction h generalizing order with
  | refl => exact ⟨order, rfl⟩
  | @complete middle s next new hm hs hf ih =>
    -- The new order differs on `middle` only, which has more budget than what comes behind it.
    let first := order.withFirst middle s hs
    have hfirst : first.next middle = s := if_pos rfl
    have hrest : ∀ x : Course, x.resolution.budget < middle.resolution.budget →
        first.next x = order.next x :=
      fun x hx => if_neg fun he => Nat.lt_irrefl _ (he ▸ hx)
    have hne : middle.inFlight ≠ [] := List.ne_nil_of_mem hs
    obtain ⟨other, ho⟩ := ih first
    refine ⟨other, ho.trans ?_⟩
    rw [Course.runBy_of_next hne (hfirst.symm ▸ hf), hfirst,
      Course.runBy_congr hrest _ (budget_finish hf)]

/-- Every end of a course is its end under some order. -/
theorem exists_runBy_eq {c d : Course} {result : Except LoadError Graph}
    (h : Reaches skip outcomes c d) (hr : Returns skip outcomes d result) :
    ∃ order : CompletionOrder, (c.runBy skip outcomes order).1 = result := by
  cases hr with
  | graph hdone =>
    obtain ⟨order, ho⟩ := exists_runBy_of_reaches h .oldestFirst
    exact ⟨order, by rw [ho, Course.runBy_of_done hdone]⟩
  | @failure s e hs hf =>
    let now := CompletionOrder.oldestFirst.withFirst d s hs
    have hnow : now.next d = s := if_pos rfl
    obtain ⟨order, ho⟩ := exists_runBy_of_reaches h now
    refine ⟨order, ho.trans ?_⟩
    rw [Course.runBy_of_failure (List.ne_nil_of_mem hs) (hnow.symm ▸ hf)]

/-! ## What a course comes to -/

theorem finish_eq_error_iff {outcome : Except LoadError CompiledRecord} {r : Resolution}
    {e : LoadError} : finish skip outcome r = .error e ↔
      r.budget = 0 ∧ e = .notConverged r.limit ∨ r.budget ≠ 0 ∧ outcome = .error e := by
  unfold finish
  split
  · next h => simp [h, eq_comm]
  · next h => cases outcome <;> simp [h]

/-- The budget that is left and the records that were taken make up the limit. -/
structure Course.Counted (limit : Nat) (c : Course) : Prop where
  limit_eq : c.resolution.limit = limit
  budget_add_size : c.resolution.budget + c.resolution.graph.size = limit

theorem Course.counted_start : (Course.start skip limit entries).Counted limit := ⟨rfl, rfl⟩

theorem Course.counted_of_reaches {c d : Course} (h : Reaches skip outcomes c d)
    (hs : c.Sound skip outcomes entries) (hc : c.Counted limit) : d.Counted limit := by
  induction h with
  | refl => exact hc
  | @complete middle s next new hm hin hf ih =>
    obtain ⟨hb, record, hrec, hnext⟩ := finish_eq_ok_iff.1 hf
    obtain ⟨rfl, -⟩ := Prod.mk.inj hnext
    have hnew : record.specifier ∉ middle.resolution.graph.specifiers :=
      outcomes.specifier_eq hrec ▸ (Course.sound_of_reaches hm hs).disjoint hin
    refine ⟨ih.limit_eq, ?_⟩
    have hcount := ih.budget_add_size
    simp only [Graph.size, take, Graph.records_insert_of_notMem hnew,
      List.length_append, List.length_singleton] at hcount ⊢
    omega

/-- The modules that a resolution wants. -/
def wanted (skip : Specifier → Bool) (outcomes : Outcomes) (entries : List Specifier) :
    Set Specifier := {s | Wanted skip outcomes entries s}

/-- There are as many wanted modules as were started. -/
theorem Course.Sound.length_started_le {c : Course} (h : c.Sound skip outcomes entries) :
    (c.started.length : ℕ∞) ≤ (wanted skip outcomes entries).encard := by
  have hcard : ({s | s ∈ c.started} : Set Specifier).encard = c.started.length := by
    rw [← List.coe_toFinset, Set.encard_coe_eq_coe_finsetCard,
      List.toFinset_card_of_nodup h.started_nodup]
  rw [← hcard]
  exact Set.encard_le_encard fun s hs => h.started_wanted s hs

theorem Course.Sound.length_started {c : Course} (h : c.Sound skip outcomes entries) :
    c.started.length = c.resolution.graph.size + c.inFlight.length := by
  rw [h.started_perm.length_eq, List.length_append, Graph.specifiers, List.length_map, Graph.size]

/-- With nothing in flight, the wanted modules are those of the graph. -/
theorem Course.Sound.encard_wanted {c : Course} (h : c.Sound skip outcomes entries)
    (hdone : c.inFlight = []) :
    (wanted skip outcomes entries).encard = c.resolution.graph.size := by
  have hnodup : c.resolution.graph.specifiers.Nodup := by
    have hperm := h.started_perm
    rw [hdone, List.append_nil] at hperm
    exact hperm.nodup_iff.1 h.started_nodup
  have hset : wanted skip outcomes entries = (c.resolution.graph.specifiers.toFinset : Set _) := by
    ext s
    rw [List.coe_toFinset]
    exact (h.mem_specifiers_iff hdone).symm
  rw [hset, Set.encard_coe_eq_coe_finsetCard, List.toFinset_card_of_nodup hnodup,
    Graph.specifiers, List.length_map, Graph.size]

/-- With nothing in flight, the graph has the record that was made of each wanted module. -/
theorem Course.Sound.get?_eq_some_iff {c : Course} (h : c.Sound skip outcomes entries)
    (hdone : c.inFlight = []) {s : Specifier} {r : CompiledRecord} :
    c.resolution.graph.get? s = some r ↔
      s ∈ wanted skip outcomes entries ∧ outcomes.of s = .ok r := by
  have hrecord : ∀ q, c.resolution.graph.get? s = some q → outcomes.of s = .ok q := by
    intro q hq
    have := h.record_eq q (Graph.mem_of_get? hq)
    rwa [Graph.specifier_of_get? hq] at this
  constructor
  · intro hr
    have hmem : c.resolution.graph.contains s = true := by simp [Graph.contains, hr]
    exact ⟨(h.mem_specifiers_iff hdone).1 (Graph.contains_iff.1 hmem), hrecord r hr⟩
  · rintro ⟨hs, hr⟩
    obtain ⟨q, hq⟩ := Option.isSome_iff_exists.1
      (Graph.contains_iff.2 ((h.mem_specifiers_iff hdone).2 hs))
    rw [hq, Except.ok.inj ((hrecord q hq).symm.trans hr)]

/-- What a resolution can come to: the records of all wanted modules, which are no more than its
limit; no budget, since they are more; or the failure of one of them. -/
theorem returns_cases {c : Course} {result : Except LoadError Graph}
    (h : Reaches skip outcomes (.start skip limit entries) c)
    (hr : Returns skip outcomes c result) :
    (∃ g, result = .ok g ∧ (wanted skip outcomes entries).encard ≤ limit ∧
      (∀ s ∈ wanted skip outcomes entries, ∃ r, outcomes.of s = .ok r) ∧
      ∀ s r, g.get? s = some r ↔ s ∈ wanted skip outcomes entries ∧ outcomes.of s = .ok r) ∨
    (result = .error (.notConverged limit) ∧ limit < (wanted skip outcomes entries).encard) ∨
    ∃ s ∈ wanted skip outcomes entries, ∃ e, outcomes.of s = .error e ∧ result = .error e := by
  have hs : c.Sound skip outcomes entries := Course.sound_of_reaches h Course.sound_start
  have hc : c.Counted limit := Course.counted_of_reaches h Course.sound_start Course.counted_start
  cases hr with
  | graph hdone =>
    have hget := fun s r => hs.get?_eq_some_iff (s := s) (r := r) hdone
    refine Or.inl ⟨_, rfl, ?_, ?_, hget⟩
    · rw [hs.encard_wanted hdone]
      exact_mod_cast Nat.le.intro ((Nat.add_comm _ _).trans hc.budget_add_size)
    · intro s hw
      obtain ⟨r, hr, rfl⟩ := List.mem_map.1 ((hs.mem_specifiers_iff hdone).2 hw)
      exact ⟨r, hs.record_eq r hr⟩
  | @failure s e hin hf =>
    rcases finish_eq_error_iff.1 hf with ⟨hb, rfl⟩ | ⟨-, he⟩
    · refine Or.inr (Or.inl ⟨by rw [hc.limit_eq], ?_⟩)
      -- All of the limit was taken, and one more module is in flight.
      have hpos : 0 < c.inFlight.length := List.length_pos_of_mem hin
      have hstarted : limit < c.started.length := by
        have := hc.budget_add_size
        rw [hs.length_started]
        omega
      exact lt_of_lt_of_le (by exact_mod_cast hstarted) hs.length_started_le
    · exact Or.inr (Or.inr ⟨s, hs.started_wanted s (hs.mem_started_iff.2 (Or.inr hin)), e, he, rfl⟩)

/-- What resolutions come to in any order of completions; every end that a course has is its end in
one of them. If there are no more wanted modules than the limit and none fails, all orders come to
graphs with the same records, those of the wanted modules. If there are no more and some fail, every
order comes to the failure of one of these, which is not one of the budget unless the modules have
such failures. If there are more, every order ends behind one completion more than the limit at the
latest, without budget or with the failure of one of them. -/
theorem outcome_in_any_order (skip : Specifier → Bool) (outcomes : Outcomes)
    (entries : List Specifier) (limit : Nat) :
    let run := (Course.start skip limit entries).runBy skip outcomes
    let members := wanted skip outcomes entries
    (∀ c result, Reaches skip outcomes (.start skip limit entries) c →
      Returns skip outcomes c result → ∃ order, (run order).1 = result) ∧
    (members.encard ≤ limit → (∀ s ∈ members, ∃ r, outcomes.of s = .ok r) →
      ∀ order other, ∃ g h, (run order).1 = .ok g ∧ (run other).1 = .ok h ∧ g.get? = h.get? ∧
        ∀ s r, g.get? s = some r ↔ s ∈ members ∧ outcomes.of s = .ok r) ∧
    (members.encard ≤ limit → (∃ s ∈ members, ∃ e, outcomes.of s = .error e) →
      ∀ order, ∃ s ∈ members, ∃ e, outcomes.of s = .error e ∧ (run order).1 = .error e ∧
        ((∀ t ∈ members, ∀ n, outcomes.of t ≠ .error (.notConverged n)) →
          ∀ n, (run order).1 ≠ .error (.notConverged n))) ∧
    (limit < members.encard →
      ∀ order, (run order).2 ≤ limit + 1 ∧ ((run order).1 = .error (.notConverged limit) ∨
        ∃ s ∈ members, ∃ e, outcomes.of s = .error e ∧ (run order).1 = .error e)) := by
  intro run members
  have hcases : ∀ order, _ := fun order =>
    have ⟨_, hd, hr⟩ := Course.runBy_returns skip outcomes order (.start skip limit entries)
    returns_cases hd hr
  refine ⟨fun c result => exists_runBy_eq, ?_, ?_, ?_⟩
  · intro hle hall
    have hgraph : ∀ order, ∃ g, (run order).1 = .ok g ∧
        ∀ s r, g.get? s = some r ↔ s ∈ members ∧ outcomes.of s = .ok r := by
      intro order
      rcases hcases order with ⟨g, hg, -, -, hget⟩ | ⟨-, hlt⟩ | ⟨s, hs, e, he, -⟩
      · exact ⟨g, hg, hget⟩
      · exact absurd hle (not_le_of_gt hlt)
      · obtain ⟨r, hr⟩ := hall s hs
        rw [hr] at he
        cases he
    intro order other
    obtain ⟨g, hg, hget⟩ := hgraph order
    obtain ⟨h, hh, hget'⟩ := hgraph other
    refine ⟨g, h, hg, hh, ?_, hget⟩
    funext s
    exact Option.ext fun r => (hget s r).trans (hget' s r).symm
  · rintro hle ⟨t, ht, f, hf⟩ order
    rcases hcases order with ⟨g, -, -, hall, -⟩ | ⟨-, hlt⟩ | ⟨s, hs, e, he, hresult⟩
    · obtain ⟨r, hr⟩ := hall t ht
      rw [hr] at hf
      cases hf
    · exact absurd hle (not_le_of_gt hlt)
    · refine ⟨s, hs, e, he, hresult, fun hnone n hn => ?_⟩
      exact hnone s hs n (he.trans (congrArg _ (Except.error.inj (hresult.symm.trans hn))))
  · intro hlt order
    refine ⟨Course.runBy_le order _, ?_⟩
    rcases hcases order with ⟨g, -, hle, -, -⟩ | ⟨hresult, -⟩ | hfailure
    · exact absurd hle (not_le_of_gt hlt)
    · exact Or.inl hresult
    · exact Or.inr hfailure

/-- Each module imports another one, without an end. -/
def endless : Outcomes where
  of s := .ok
    { specifier := s, location := s.text, outcome := .ok ""
      report := { static := [⟨String.ofList ('/' :: s.text.toList)⟩] } }
  specifier_eq := by
    intro s r h
    cases h
    rfl

theorem infinite_wanted_endless :
    (wanted (fun _ => false) endless [⟨""⟩]).Infinite := by
  let name (n : Nat) : Specifier := ⟨String.ofList (List.replicate n '/')⟩
  have hinj : Function.Injective name := by
    intro m n h
    have htext : List.replicate m '/' = List.replicate n '/' :=
      String.ofList_injective (congrArg Specifier.text h)
    simpa using congrArg List.length htext
  refine Set.infinite_of_injective_forall_mem hinj fun n => ?_
  induction n with
  | zero => exact .entry (List.mem_singleton.2 rfl) rfl
  | succ n ih =>
    refine .dependency ih rfl (List.mem_singleton.2 ?_) rfl
    simp [name, List.replicate_succ]

theorem endless_takes_all_budget :
    let run := (Course.start (fun _ => false) 2 [⟨""⟩]).runBy (fun _ => false) endless .oldestFirst
    2 < (wanted (fun _ => false) endless [⟨""⟩]).encard ∧ run.2 ≤ 3 ∧
      run.1 = .error (.notConverged 2) := by
  have hmany : (2 : ℕ∞) < (wanted (fun _ => false) endless [⟨""⟩]).encard := by
    rw [infinite_wanted_endless.encard_eq]
    exact ENat.natCast_lt_top 2
  obtain ⟨hle, hresult⟩ :=
    (outcome_in_any_order (fun _ => false) endless [⟨""⟩] 2).2.2.2 hmany .oldestFirst
  refine ⟨hmany, hle, hresult.resolve_right ?_⟩
  rintro ⟨s, -, e, he, -⟩
  cases he

end Resolution

namespace Workshop

theorem compile_ne_notConverged (w : Workshop) (q : Compile.Request)
    (c : Option Cache.Checksum) (n : Nat) : (w.compile q c).1 ≠ .error (.notConverged n) := by
  have hfailure : ∀ (code : Except Compile.Failure String) (e : LoadError),
      (code.mapError fun f => LoadError.notCompiled q.specifier f.message f.stack) = .error e →
      e ≠ .notConverged n := by
    rintro (f | code) e h
    · cases h
      simp
    · cases h
  simp only [compile]
  split
  · simp
  · next e _ he => simpa using hfailure _ e he
  · simp

/-- Nothing but the budget of a resolution gives out for lack of budget. -/
theorem outcomes_ne_notConverged (w : Workshop) (options : Compile.Options) (s : Specifier)
    (n : Nat) : (w.outcomes options).of s ≠ .error (.notConverged n) := by
  change (w.order options s).1.outcome ≠ _
  rw [order_eq]
  split
  · next e he =>
    simp only [fetch, Fetch.run] at he
    split at he
    · cases he
    · cases he
      simp [Order.outcome]
  · dsimp only
    split
    · simp [Order.outcome]
    · exact compile_ne_notConverged _ _ _ n

/-- A resolution that is run gives out for lack of budget only if it wants more modules than its
limit. -/
theorem resolve_notConverged {w : Workshop} {skip : Specifier → Bool} {limit n : Nat}
    {options : Compile.Options} {entries : List Specifier}
    (h : (w.resolve skip limit options entries).1 = .error (.notConverged n)) :
    n = limit ∧ limit < (Resolution.wanted skip (w.outcomes options) entries).encard := by
  obtain ⟨c, hc, hr⟩ := w.resolve_returns skip limit options entries
  rw [h] at hr
  rcases Resolution.returns_cases hc hr with ⟨g, hg, -⟩ | ⟨he, hlt⟩ | ⟨s, -, e, he, heq⟩
  · cases hg
  · cases he
    exact ⟨rfl, hlt⟩
  · cases heq
    exact absurd he (w.outcomes_ne_notConverged options s n)

end Workshop

end ScriptLoader
