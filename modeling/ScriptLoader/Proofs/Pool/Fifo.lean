import ScriptLoader.Proofs.Pool.Steps

/-!
# The order in which jobs are sent

Jobs are numbered in the order in which the pool accepted them. The queue stays in that order, since
jobs join at its end and a job that could not be sent is put back to its front; so the requests are
made in that order, too.

* `Pool.Precedes`: a request that was made before a job is sent, if the job is not of lower number.
  A job is sent again only if it could not be sent before.
* `Pool.InOrder`: the order of the queue and the requests. Every step keeps it
  (`Pool.inOrder_step`).
-/

namespace ScriptLoader.Pool

def requested (requests : List UnitRequest) : List Nat := requests.map (·.job.number)

/-- A request is for a job before another one, or for that one and could not be sent. -/
def Precedes (q : UnitRequest) (k : Nat) : Prop :=
  q.job.number < k ∨ q.job.number = k ∧ q.delivered = false

/-- What holds of the order of jobs. -/
structure InOrder (b : Board) : Prop where
  queue : (b.queue.map (·.number)).Pairwise (· < ·)
  requests : b.requests.Pairwise fun q r => Precedes q r.job.number
  ahead : ∀ q ∈ b.requests, ∀ j ∈ b.queue, Precedes q j.number
  /-- An open pool has lost no job. -/
  met : b.closed = none → ∀ k < b.accepted,
    k ∈ b.queue.map (·.number) ∨ k ∈ requested b.requests ∨ k ∈ b.skipped
  /-- No job is requested before one that arrived earlier, unless that one was skipped. -/
  passed : ∀ r ∈ b.requests, ∀ k < r.job.number, k ∈ requested b.requests ∨ k ∈ b.skipped
  queue_lt : ∀ j ∈ b.queue, j.number < b.accepted
  requests_lt : ∀ r ∈ b.requests, r.job.number < b.accepted
  closed : b.closed ≠ none → b.queue = []

namespace InOrder

variable {b : Board}

theorem open_of_queue (h : InOrder b) {j : Job} (hj : j ∈ b.queue) : b.closed = none := by
  by_contra hc
  rw [h.closed hc] at hj
  cases hj

/-- The order does not depend on units and answers. -/
theorem beside (h : InOrder b) (units : List UnitSlot) (idle abandoned : List Nat)
    (answers : List Answer) : InOrder { b with units, idle, abandoned, answers } :=
  ⟨h.queue, h.requests, h.ahead, h.met, h.passed, h.queue_lt, h.requests_lt, h.closed⟩

theorem accept (h : InOrder b) (s : Specifier) (hopen : b.closed = none) :
    InOrder { b with queue := b.queue ++ [⟨b.accepted, s⟩], accepted := b.accepted + 1 } := by
  refine ⟨?_, h.requests, ?_, ?_, h.passed, ?_, ?_, fun hc => absurd hopen hc⟩
  · rw [List.map_append, List.pairwise_append]
    refine ⟨h.queue, List.pairwise_singleton _ _, ?_⟩
    intro k hk l hl
    obtain ⟨j, hj, rfl⟩ := List.mem_map.1 hk
    rw [List.mem_singleton.1 hl]
    exact h.queue_lt j hj
  · intro q hq j hj
    rcases List.mem_append.1 hj with hj | hj
    · exact h.ahead q hq j hj
    · rw [List.mem_singleton.1 hj]
      exact Or.inl (h.requests_lt q hq)
  · intro _ k hk
    rcases Nat.lt_succ_iff_lt_or_eq.1 hk with hk | rfl
    · exact (h.met hopen k hk).imp_left fun hm => by
        rw [List.map_append]
        exact List.mem_append_left _ hm
    · exact Or.inl (by simp)
  · intro j hj
    rcases List.mem_append.1 hj with hj | hj
    · exact Nat.lt_succ_of_lt (h.queue_lt j hj)
    · rw [List.mem_singleton.1 hj]
      exact Nat.lt_succ_self _
  · exact fun r hr => Nat.lt_succ_of_lt (h.requests_lt r hr)

theorem skip (h : InOrder b) (isAbandoned : Job → Bool) : InOrder
    { b with
      queue := b.queue.dropWhile isAbandoned
      skipped := b.skipped ++ (b.queue.takeWhile isAbandoned).map (·.number) } := by
  have hsub : (b.queue.dropWhile isAbandoned).Sublist b.queue := List.dropWhile_sublist _
  have hsplit : b.queue.takeWhile isAbandoned ++ b.queue.dropWhile isAbandoned = b.queue :=
    List.takeWhile_append_dropWhile
  have hskipped : ∀ {k}, k ∈ b.skipped →
      k ∈ b.skipped ++ (b.queue.takeWhile isAbandoned).map (·.number) :=
    fun hk => List.mem_append_left _ hk
  refine ⟨h.queue.sublist (hsub.map _), h.requests,
    fun q hq j hj => h.ahead q hq j (hsub.subset hj), ?_,
    fun r hr k hk => (h.passed r hr k hk).imp_right hskipped,
    fun j hj => h.queue_lt j (hsub.subset hj), h.requests_lt, ?_⟩
  · intro hopen k hk
    rcases h.met hopen k hk with hm | hm | hm
    · rw [← hsplit, List.map_append] at hm
      rcases List.mem_append.1 hm with hm | hm
      · exact Or.inr (Or.inr (List.mem_append_right _ hm))
      · exact Or.inl hm
    · exact Or.inr (Or.inl hm)
    · exact Or.inr (Or.inr (hskipped hm))
  · intro hc
    exact List.eq_nil_of_sublist_nil (h.closed hc ▸ hsub)

theorem first_lt (h : InOrder b) {first : Job} {rest : List Job} (hq : b.queue = first :: rest) :
    ∀ j ∈ rest, first.number < j.number := by
  have hsorted := h.queue
  rw [hq, List.map_cons, List.pairwise_cons] at hsorted
  exact fun j hj => hsorted.1 _ (List.mem_map_of_mem hj)

/-- What arrived before the first job of the queue is no longer in the queue. -/
theorem earlier (h : InOrder b) {first : Job} {rest : List Job} (hq : b.queue = first :: rest) :
    ∀ k < first.number, k ∈ requested b.requests ∨ k ∈ b.skipped := by
  have hfirst : first ∈ b.queue := hq ▸ List.mem_cons_self
  intro k hk
  have hmet := h.met (h.open_of_queue hfirst) k (Nat.lt_trans hk (h.queue_lt _ hfirst))
  refine hmet.resolve_left fun hm => ?_
  rw [hq, List.map_cons] at hm
  rcases List.mem_cons.1 hm with rfl | hm
  · omega
  · obtain ⟨j, hj, rfl⟩ := List.mem_map.1 hm
    have := h.first_lt hq j hj
    omega

/-- The first job of the queue is requested of a unit. It leaves the queue if it could be sent. -/
theorem request (h : InOrder b) {r : UnitRequest} {rest queue : List Job}
    (hq : b.queue = r.job :: rest)
    (hqueue : queue = rest ∨ queue = r.job :: rest ∧ r.delivered = false) :
    InOrder { b with queue, requests := b.requests ++ [r] } := by
  have hfirst : r.job ∈ b.queue := hq ▸ List.mem_cons_self
  have hsub : queue.Sublist b.queue := by
    rcases hqueue with rfl | ⟨rfl, -⟩
    · exact hq ▸ List.sublist_cons_self _ _
    · exact hq ▸ .refl _
  have hrequested : requested (b.requests ++ [r]) = requested b.requests ++ [r.job.number] := by
    rw [requested, List.map_append]
    rfl
  have hold : ∀ {k}, k ∈ requested b.requests → k ∈ requested (b.requests ++ [r]) :=
    fun hk => hrequested ▸ List.mem_append_left _ hk
  refine ⟨h.queue.sublist (hsub.map _), ?_, ?_, ?_, ?_, fun j hj => h.queue_lt j (hsub.subset hj),
    ?_, fun hc => absurd (h.open_of_queue hfirst) hc⟩
  · rw [List.pairwise_append]
    refine ⟨h.requests, List.pairwise_singleton _ _, ?_⟩
    intro q hqr r' hr'
    rw [List.mem_singleton.1 hr']
    exact h.ahead q hqr _ hfirst
  · intro q hqr j hj
    rcases List.mem_append.1 hqr with hqr | hqr
    · exact h.ahead q hqr j (hsub.subset hj)
    · rw [List.mem_singleton.1 hqr]
      rcases hqueue with rfl | ⟨rfl, hd⟩
      · exact Or.inl (h.first_lt hq j hj)
      · rcases List.mem_cons.1 hj with rfl | hj
        · exact Or.inr ⟨rfl, hd⟩
        · exact Or.inl (h.first_lt hq j hj)
  · intro hopen k hk
    rcases h.met hopen k hk with hm | hm | hm
    · rw [hq, List.map_cons] at hm
      rcases List.mem_cons.1 hm with rfl | hm
      · exact Or.inr (Or.inl (hrequested ▸ List.mem_append_right _ List.mem_cons_self))
      · rcases hqueue with rfl | ⟨rfl, -⟩
        · exact Or.inl hm
        · exact Or.inl (List.mem_cons_of_mem _ hm)
    · exact Or.inr (Or.inl (hold hm))
    · exact Or.inr (Or.inr hm)
  · intro q hqr k hk
    rcases List.mem_append.1 hqr with hqr | hqr
    · exact (h.passed q hqr k hk).imp_left hold
    · rw [List.mem_singleton.1 hqr] at hk
      exact (h.earlier hq k hk).imp_left hold
  · intro q hqr
    rcases List.mem_append.1 hqr with hqr | hqr
    · exact h.requests_lt q hqr
    · rw [List.mem_singleton.1 hqr]
      exact h.queue_lt _ hfirst

theorem close (h : InOrder b) (reason : String) :
    InOrder { b with queue := [], closed := some reason } :=
  ⟨List.Pairwise.nil, h.requests, by simp, by simp, h.passed, by simp, h.requests_lt, by simp⟩

end InOrder

theorem inOrder_step {b c : Board} (hs : Step b c) (h : InOrder b) : InOrder c := by
  cases hs with
  | accept s hopen => exact h.accept s hopen
  | abandon job => exact h.beside _ _ _ _
  | skip => exact h.skip _
  | @send unit reference slot job idle rest hu hi hq =>
    exact (h.request (r := { unit, reference, job, delivered := true }) hq
      (Or.inl rfl)).beside _ _ _ _
  | @requeue unit reference job idle rest hi hq =>
    exact (h.request (r := { unit, reference, job, delivered := false }) hq
      (Or.inr ⟨rfl, rfl⟩)).beside _ _ _ _
  | ready => exact h.beside _ _ _ _
  | report => exact h.beside _ _ _ _
  | finish => exact h.beside _ _ _ _
  | settle => exact h.beside _ _ _ _
  | retire => exact h.beside _ _ _ _
  | close reason e _ => exact (h.close reason).beside _ _ _ _

end ScriptLoader.Pool
