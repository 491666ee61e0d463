import ScriptLoader.Proofs.Graph.Records
import ScriptLoader.Proofs.Sharing.Request

/-!
# What a request may do

A request touches modules of its own alone, gives the host the code of records that it may hold, and
keeps such records alone, as long as what it is answered is in order: the records that it awaits,
and the records that were prepared under its options. It asks for the lock when it does not have it,
and lets go of it when it has it.

* `Sharing.Duty`: the modules that a request may touch and the records that it may hold.
* `Sharing.Keeps`: a conduct that keeps to a duty.
* `Sharing.keeps_request`: a request keeps to every duty that its entry is in.
* `Sharing.Orderly`: requests that keep to their duties, which every touch preserves whose answer is
  in order (`Sharing.Orderly.step`).
-/

namespace ScriptLoader.Sharing

open Conduct

variable {F α β : Type}

/-- What a request under options may touch and hold. -/
structure Duty where
  options : Compile.Options
  Owns : Specifier → Prop
  Fits : CompiledRecord → Prop
  fits_waited : ∀ {r : CompiledRecord}, Fits r → Fits r.waited
  owns_specifier : ∀ {r : CompiledRecord}, Fits r → Owns r.specifier
  owns_dependency : ∀ {r : CompiledRecord} {s : Specifier}, Fits r →
    s ∈ Resolution.dependencies r → Owns s

namespace Duty

/-- Whether a request may touch something, where `held` tells whether it has the lock. -/
def Allows (d : Duty) (held : Bool) : Touch F → Prop
  | .look s | .seek s | .allocate s | .fill s _ | .forget s => d.Owns s
  | .peek n => d.Owns n.owner
  | .await options pending => options = d.options ∧ pending ≠ [] ∧ ∀ s ∈ pending, d.Owns s
  | .acquire => held = false
  | .release => held = true
  | .instantiate m => ∃ r code, d.Fits r ∧ r.outcome = .ok code ∧ m.specifier = r.specifier ∧
      m.code = Compile.withOrigin code r.specifier
  | .keep p => p.options = d.options ∧ d.Fits p.record

/-- Whether an answer is in order. -/
def Trusts (d : Duty) : (x : Touch F) → x.Answer → Prop
  | .seek _, a => ∀ r, Prepared.under? d.options a = some r → d.Fits r
  | .await _ pending, (s, outcome) => s ∈ pending ∧ ∀ r, outcome = .ok r → d.Fits r
  | .allocate s, n => n.owner = s
  | _, _ => True

end Duty

/-- Whether a request has the lock behind a touch. -/
def Touch.holds (held : Bool) : Touch F → Bool
  | .acquire => true
  | .release => false
  | _ => held

/-- A conduct keeps to a duty, and what it comes to is as described. -/
def Keeps (d : Duty) (post : Bool → α → Prop) : Bool → Conduct F α → Prop
  | held, .done a => post held a
  | held, .touch x next =>
    d.Allows held x ∧ ∀ a, d.Trusts x a → Keeps d post (x.holds held) (next a)

/-- A conduct keeps to a duty and leaves the lock as it is. -/
def Minds (d : Duty) (held : Bool) (p : Conduct F α) (post : α → Prop) : Prop :=
  Keeps d (fun h a => h = held ∧ post a) held p

section

variable {d : Duty} {held : Bool} {post : Bool → α → Prop}

theorem Keeps.bind {p : Conduct F β} {f : β → Conduct F α} {mid : Bool → β → Prop}
    (hp : Keeps d mid held p) (hf : ∀ h b, mid h b → Keeps d post h (f b)) :
    Keeps d post held (p >>= f) := by
  induction p generalizing held with
  | done b => exact hf held b hp
  | touch x next ih => exact ⟨hp.1, fun a ha => ih a (hp.2 a ha)⟩

theorem Minds.bind {p : Conduct F β} {f : β → Conduct F α} {mid : β → Prop}
    (hp : Minds d held p mid) (hf : ∀ b, mid b → Keeps d post held (f b)) :
    Keeps d post held (p >>= f) :=
  Keeps.bind hp fun _ b h => h.1 ▸ hf b h.2

theorem Keeps.perform {x : Touch F} {f : x.Answer → Conduct F α} (hx : d.Allows held x)
    (hf : ∀ a, d.Trusts x a → Keeps d post (x.holds held) (f a)) :
    Keeps d post held (perform x >>= f) := ⟨hx, hf⟩

theorem minds_done {a : α} {post : α → Prop} (h : post a) :
    Minds d held (.done a : Conduct F α) post := ⟨rfl, h⟩

end

variable {d : Duty} {held : Bool}

/-! ## Resolving -/

/-- A request may hold the records of a graph. -/
def Duty.Holds (d : Duty) (g : Graph) : Prop := ∀ r ∈ g.records, d.Fits r

theorem Duty.Holds.insert {g : Graph} {r : CompiledRecord} (hg : d.Holds g) (hr : d.Fits r) :
    d.Holds (g.insert r) := by
  intro q (hq : q ∈ ([r].foldl Graph.insert g).records)
  rcases Graph.mem_records_insertAll hq with hq | hq
  · exact hg q hq
  · exact List.mem_singleton.1 hq ▸ hr

theorem Duty.Holds.awaitCode {g : Graph} (hg : d.Holds g) : d.Holds g.awaitCode.1 := by
  intro r hr
  obtain ⟨q, hq, rfl | rfl⟩ := Graph.mem_awaitRecords hr
  · exact hg r hq
  · exact d.fits_waited (hg q hq)

/-- A resolution holds what it may, and awaits what it may touch. -/
structure Duty.Resolves (d : Duty) (r : Resolution) : Prop where
  holds : d.Holds r.graph
  owns : ∀ s ∈ r.pending, d.Owns s

theorem minds_skips {s : Specifier} (hs : d.Owns s) :
    Minds d held (skips d.options s : Conduct F Bool) fun _ => True := by
  refine Keeps.perform hs fun m _ => ?_
  cases m with
  | some m => exact minds_done trivial
  | none => exact Keeps.perform hs fun _ _ => minds_done trivial

theorem minds_discover {found : List Specifier} {r : Resolution} (hr : d.Resolves r)
    (hfound : ∀ s ∈ found, d.Owns s) :
    Minds d held (discover d.options found r : Conduct F Resolution) d.Resolves := by
  induction found generalizing r with
  | nil => exact minds_done hr
  | cons s found ih =>
    obtain ⟨hs, hfound⟩ := List.forall_mem_cons.1 hfound
    unfold discover
    split
    · exact ih hr hfound
    · refine Minds.bind (minds_skips hs) fun skipped _ => ?_
      split
      · exact ih hr hfound
      · refine ih ⟨hr.holds, fun t ht => ?_⟩ hfound
        rcases List.mem_append.1 ht with ht | ht
        · exact hr.owns t ht
        · exact List.mem_singleton.1 ht ▸ hs

theorem minds_resolve {budget : Nat} {r : Resolution} (hr : d.Resolves r) :
    Minds d held (resolve d.options budget r : Conduct F (Except LoadError Graph))
      fun result => ∀ g, result = .ok g → d.Holds g := by
  induction budget generalizing r with
  | zero =>
    unfold resolve
    split
    · exact minds_done (by rintro _ ⟨⟩; exact hr.holds)
    · next hp =>
      exact Keeps.perform ⟨rfl, hp, hr.owns⟩ fun _ _ => minds_done (by rintro _ ⟨⟩)
  | succ budget ih =>
    unfold resolve
    split
    · exact minds_done (by rintro _ ⟨⟩; exact hr.holds)
    · next hp =>
      refine Keeps.perform ⟨rfl, hp, hr.owns⟩ ?_
      rintro ⟨s, outcome⟩ ⟨-, hfits⟩
      cases outcome with
      | error e => exact minds_done (by rintro _ ⟨⟩)
      | ok record =>
        have hrecord := hfits record rfl
        refine Minds.bind (minds_discover ⟨hr.holds.insert hrecord, fun t ht => ?_⟩
          fun t ht => d.owns_dependency hrecord ht) fun next hnext => ih hnext
        exact hr.owns t (List.mem_of_mem_erase ht)

/-! ## Taking prepared modules in -/

theorem minds_takeIn {s : Specifier} {g : Graph} (hs : d.Owns s) (hg : d.Holds g) :
    Minds d held (takeIn d.options s g : Conduct F Graph) d.Holds := by
  unfold takeIn
  split
  · exact minds_done hg
  · refine Keeps.perform hs fun a ha => ?_
    split
    · next r hr => exact minds_done (hg.insert (ha r hr))
    · exact minds_done hg

theorem minds_follow {patience : Nat} {visited stack : List Specifier} {g : Graph}
    (hstack : ∀ s ∈ stack, d.Owns s) (hg : d.Holds g) :
    Minds d held (follow d.options patience visited stack g : Conduct F Graph) d.Holds := by
  induction patience generalizing visited stack g with
  | zero => exact minds_done hg
  | succ patience ih =>
    cases stack with
    | nil => exact minds_done hg
    | cons s stack =>
      obtain ⟨hs, hstack⟩ := List.forall_mem_cons.1 hstack
      unfold follow
      split
      · exact ih hstack hg
      · refine Keeps.perform hs fun m _ => ?_
        cases m with
        | some m => exact ih hstack hg
        | none =>
          refine Minds.bind (minds_takeIn hs hg) fun g hg => ?_
          split
          · next r hr =>
            refine ih (fun t ht => ?_) hg
            rcases List.mem_append.1 ht with ht | ht
            · exact d.owns_dependency (hg r (Graph.mem_of_get? hr))
                (List.mem_append_left _ (List.mem_reverse.1 ht))
            · exact hstack t ht
          · exact ih hstack hg

/-! ## Assembling -/

/-- A request may look into the slot that a reference holds. -/
def Duty.Refers (d : Duty) (result : Except LoadError (ModuleRef F)) : Prop :=
  ∀ stub, result = .ok (.forwarded stub) → d.Owns stub.slot.owner

theorem minds_bindAll {visit : Specifier → Conduct F (Except LoadError (ModuleRef F))}
    {ds : List Specifier} {scope : Scope F} (hvisit : ∀ s ∈ ds, Minds d held (visit s) d.Refers) :
    Minds d held (bindAll visit ds scope) fun _ => True := by
  induction ds generalizing scope with
  | nil => exact minds_done trivial
  | cons s ds ih =>
    obtain ⟨hs, hds⟩ := List.forall_mem_cons.1 hvisit
    unfold bindAll
    refine Minds.bind hs fun result _ => ?_
    cases result with
    | error e => exact minds_done trivial
    | ok ref => exact ih hds

theorem minds_instantiate {importer : Importer} {r : CompiledRecord} {scope : Scope F}
    (hr : d.Fits r) : Minds d held (instantiate importer r scope : Conduct F _) d.Refers := by
  unfold instantiate
  split
  · exact minds_done (by rintro _ ⟨⟩)
  · next compiled hc =>
    have hcode : r.outcome = .ok compiled := by
      unfold CompiledRecord.readyCode? at hc
      split at hc
      · next h => rw [h, Option.some.inj hc]
      · cases hc
    refine Keeps.perform ⟨r, compiled, hr, hcode, rfl, rfl⟩ fun result _ => ?_
    cases result with
    | error e => exact minds_done (by rintro _ ⟨⟩)
    | ok exports =>
      exact Keeps.perform (d.owns_specifier hr) fun _ _ => minds_done (by rintro _ ⟨⟩)

theorem minds_loadRef {importer : Importer} {g : Graph} (hg : d.Holds g) {fuel : Nat}
    {path : List Specifier} {s : Specifier} (hs : d.Owns s) :
    Minds d held (loadRef importer g fuel path s : Conduct F _) d.Refers := by
  induction fuel generalizing path s with
  | zero => exact minds_done (by rintro _ ⟨⟩)
  | succ fuel ih =>
    unfold loadRef
    refine Keeps.perform hs fun n hn => ?_
    have hslot : d.Owns n.owner := (show n.owner = s from hn) ▸ hs
    refine Keeps.perform hslot fun m _ => ?_
    cases m with
    | some m => exact minds_done (by rintro _ ⟨⟩)
    | none =>
      dsimp only
      split
      · exact minds_done (by rintro _ ⟨⟩; exact hslot)
      · split
        · exact minds_done (by rintro _ ⟨⟩)
        · next r hr =>
          have hfits := hg r (Graph.mem_of_get? hr)
          refine Minds.bind (minds_bindAll fun t ht =>
            ih (d.owns_dependency hfits (List.mem_append_left _ ht))) fun result _ => ?_
          cases result with
          | error e => exact minds_done (by rintro _ ⟨⟩)
          | ok scope => exact minds_instantiate hfits

theorem minds_moduleOf {ref : ModuleRef F} (href : d.Refers (.ok ref)) :
    Minds d held (moduleOf ref) fun _ => True := by
  cases ref with
  | loaded m => exact minds_done trivial
  | forwarded stub =>
    refine Keeps.perform (href stub rfl) fun m _ => ?_
    cases m <;> exact minds_done trivial

theorem minds_load {importer : Importer} {g : Graph} {entry : Specifier} (hg : d.Holds g)
    (hentry : d.Owns entry) : Minds d held (load importer g entry : Conduct F _) fun _ => True := by
  have hready := hg.awaitCode
  unfold load
  split
  · exact minds_done trivial
  · next g' hg' =>
    rw [hg'] at hready
    refine Minds.bind (minds_loadRef hready hentry) fun result hresult => ?_
    cases result with
    | error e => exact minds_done trivial
    | ok ref => exact minds_moduleOf hresult

theorem minds_retainRecord {r : CompiledRecord} (hr : d.Fits r) :
    Minds d held (retainRecord d.options r : Conduct F Unit) fun _ => True := by
  have hs := d.owns_specifier hr
  refine Keeps.perform hs fun m _ => ?_
  cases m with
  | some m => exact ⟨hs, fun _ _ => minds_done trivial⟩
  | none => exact ⟨⟨rfl, hr⟩, fun _ _ => minds_done trivial⟩

theorem minds_retain {rs : List CompiledRecord} (hrs : ∀ r ∈ rs, d.Fits r) :
    Minds d held (retain d.options rs : Conduct F Unit) fun _ => True := by
  induction rs with
  | nil => exact minds_done trivial
  | cons r rs ih =>
    obtain ⟨hr, hrs⟩ := List.forall_mem_cons.1 hrs
    exact Minds.bind (minds_retainRecord hr) fun _ _ => ih hrs

/-! ## The whole request -/

/-- What a request comes to does not matter, but it has no lock any more. -/
abbrev Keeps.Free (d : Duty) (held : Bool) (p : Conduct F α) : Prop :=
  Keeps d (fun h _ => h = false) held p

theorem keeps_behindAssembly {g : Graph} {result : Except LoadError (LoadedModule F)}
    (hg : d.Holds g) : Keeps.Free d true (behindAssembly d.options g result) :=
  Minds.bind (minds_retain hg) fun _ _ => Keeps.perform rfl fun _ _ => rfl

theorem keeps_assemble {importer : Importer} {entry : Specifier} {g : Graph} (hg : d.Holds g)
    (hentry : d.Owns entry) :
    Keeps.Free d false (assemble importer d.options entry g : Conduct F _) :=
  Keeps.perform rfl fun _ _ => Minds.bind (minds_load hg hentry) fun _ _ => keeps_behindAssembly hg

theorem keeps_behindGraph {patience : Nat} {importer : Importer} {entry : Specifier}
    {result : Except LoadError Graph} (hresult : ∀ g, result = .ok g → d.Holds g)
    (hentry : d.Owns entry) :
    Keeps.Free d false (behindGraph patience importer d.options entry result : Conduct F _) := by
  cases result with
  | error e => rfl
  | ok g =>
    have hready := (hresult g rfl).awaitCode
    unfold behindGraph
    dsimp only
    split
    · rfl
    · next g' hg' =>
      rw [hg'] at hready
      exact Minds.bind (minds_follow (List.forall_mem_singleton.2 hentry) hready) fun _ hg =>
        keeps_assemble hg hentry

/-- A request keeps to every duty that its entry is in. -/
theorem keeps_request {limit patience : Nat} {importer : Importer} {entry : Specifier}
    (hentry : d.Owns entry) :
    Keeps.Free d false (request limit patience importer d.options entry : Conduct F _) := by
  refine Keeps.perform hentry fun m _ => ?_
  cases m with
  | some m => rfl
  | none =>
    refine Minds.bind (minds_discover ⟨by simp [Duty.Holds], by simp⟩
      (List.forall_mem_singleton.2 hentry)) fun r hr => ?_
    exact Minds.bind (minds_resolve hr) fun _ hresult => keeps_behindGraph hresult hentry

/-! ## Several requests -/

section

variable {σ ι : Type} [DecidableEq ι] {host : Host F σ} {supply : Supply} {d : ι → Duty}
  {x : State F σ ι α} {i : ι} {t : Touch F} {a : t.Answer} {next : t.Answer → Conduct F α}
  {after : Shared F σ ι}

/-- Every request keeps to its duty from here on, and has no lock at its end. -/
def Orderly (d : ι → Duty) (x : State F σ ι α) : Prop :=
  ∀ i, Keeps.Free (d i) (decide (x.shared.holder = some i)) (x.conduct i)

/-- Only the request of a touch takes the lock or lets go of it. -/
theorem Performs.holder {h : Shared F σ ι} (hp : Performs host supply i h t a after) (j : ι) :
    decide (after.holder = some j) =
      if j = i then t.holds (decide (h.holder = some i)) else decide (h.holder = some j) := by
  by_cases hj : j = i
  · subst hj
    cases hp <;> simp [Touch.holds]
  · cases hp <;> simp_all [eq_comm]

theorem Orderly.allows (h : Orderly d x) (hi : x.conduct i = .touch t next) :
    (d i).Allows (decide (x.shared.holder = some i)) t := by
  have := h i
  rw [hi] at this
  exact this.1

theorem Orderly.step (h : Orderly d x) (hi : x.conduct i = .touch t next)
    (hp : Performs host supply i x.shared t a after) (ha : (d i).Trusts t a) :
    Orderly d ⟨after, Function.update x.conduct i (next a)⟩ := by
  intro j
  dsimp only
  rw [hp.holder j]
  by_cases hj : j = i
  · subst hj
    have := h j
    rw [hi] at this
    rw [if_pos rfl, Function.update_self]
    exact this.2 a ha
  · rw [if_neg hj, Function.update_of_ne hj]
    exact h j

end

end ScriptLoader.Sharing
