import Mathlib.Logic.Function.Basic
import ScriptLoader.Loader.Basic

/-!
# What requests share, touch by touch

Requests to one loader share its registry, its host, its prepared modules and the lock of its
assembly. Whatever a request does to these it does by single touches, and between any two of them
other requests may touch them, too. What a request does next depends on the answers it was given
alone: its conduct is a tree that branches on them.

* `Sharing.Touch`, `Sharing.Performs`: a touch, and what it is answered and leaves.
* `Sharing.Conduct`: what a request does, with its first touch at the root.
* `Sharing.Run`: touches of any number of requests, in any order.
* `Sharing.Leads`: a part of a conduct that nothing comes between.
-/

namespace ScriptLoader.Sharing

/-! ## Touches -/

/-- One access of a request to what it shares with others. -/
inductive Touch (F : Type) where
  /-- Looks a module up among those that are loaded. -/
  | look (s : Specifier)
  /-- Looks a module up among those that are prepared. -/
  | seek (s : Specifier)
  /-- Waits until one of the modules that are fetched and compiled under options is there, or has
  failed. -/
  | await (options : Compile.Options) (pending : List Specifier)
  /-- Waits until no other request has the lock. -/
  | acquire
  | release
  /-- Asks for the slot of a specifier, which is given one if it has none. -/
  | allocate (s : Specifier)
  /-- Looks into a slot. -/
  | peek (n : Slot)
  | instantiate (m : HostModule F)
  | fill (s : Specifier) (m : LoadedModule F)
  /-- Keeps a record as prepared. -/
  | keep (p : Prepared)
  | forget (s : Specifier)

/-- What a touch is answered. -/
@[reducible]
def Touch.Answer {F : Type} : Touch F → Type
  | look _ => Option (LoadedModule F)
  | seek _ => Option Prepared
  | await .. => Specifier × Except LoadError CompiledRecord
  | allocate _ => Slot
  | peek _ => Option (LoadedModule F)
  | instantiate _ => Except LoadError (Exports F)
  | _ => Unit

/-- What requests share. -/
structure Shared (F σ ι : Type) where
  registry : Registry F := {}
  host : σ
  prepared : Keyed Specifier Prepared := []
  /-- The request that has the lock. -/
  holder : Option ι := none

/-- What may come of fetching and compiling a module under options. -/
abbrev Supply := Compile.Options → Specifier → Except LoadError CompiledRecord → Prop

variable {F σ ι α β : Type}

/-- What a touch by request `i` is answered, and what it leaves. -/
inductive Performs (host : Host F σ) (supply : Supply) (i : ι) :
    Shared F σ ι → (x : Touch F) → x.Answer → Shared F σ ι → Prop where
  | look {h : Shared F σ ι} {s : Specifier} :
    Performs host supply i h (.look s) (h.registry.get? s) h
  | seek {h : Shared F σ ι} {s : Specifier} :
    Performs host supply i h (.seek s) (h.prepared.get? s) h
  /-- Modules are there in any order. -/
  | await {h : Shared F σ ι} {options : Compile.Options} {pending : List Specifier} {s : Specifier}
    {outcome : Except LoadError CompiledRecord} : s ∈ pending → supply options s outcome →
    Performs host supply i h (.await options pending) (s, outcome) h
  | acquire {h : Shared F σ ι} : h.holder = none →
    Performs host supply i h .acquire () { h with holder := some i }
  | release {h : Shared F σ ι} : h.holder = some i →
    Performs host supply i h .release () { h with holder := none }
  | allocate {h : Shared F σ ι} {s : Specifier} :
    Performs host supply i h (.allocate s) (h.registry.slot s)
      { h with registry := h.registry.allocate s }
  | peek {h : Shared F σ ι} {n : Slot} :
    Performs host supply i h (.peek n) (h.registry.held? n) h
  | instantiate {h : Shared F σ ι} {m : HostModule F} :
    Performs host supply i h (.instantiate m) (host.instantiate h.registry m h.host).1
      { h with host := (host.instantiate h.registry m h.host).2 }
  | fill {h : Shared F σ ι} {s : Specifier} {m : LoadedModule F} :
    Performs host supply i h (.fill s m) () { h with registry := h.registry.fill s m }
  | keep {h : Shared F σ ι} {p : Prepared} :
    Performs host supply i h (.keep p) () { h with prepared := h.prepared.put p.record.specifier p }
  | forget {h : Shared F σ ι} {s : Specifier} :
    Performs host supply i h (.forget s) () { h with prepared := h.prepared.erase s }

/-! ## Conducts -/

/-- What a request does until it comes to a value. -/
inductive Conduct (F α : Type) where
  | done (a : α)
  | touch (x : Touch F) (next : x.Answer → Conduct F α)

namespace Conduct

protected def bind : Conduct F α → (α → Conduct F β) → Conduct F β
  | done a, f => f a
  | touch x next, f => touch x fun a => (next a).bind f

instance : Monad (Conduct F) where
  pure := done
  bind := Conduct.bind

def perform (x : Touch F) : Conduct F x.Answer := touch x done

@[simp]
theorem pure_eq (a : α) : (pure a : Conduct F α) = done a := rfl

@[simp]
theorem done_bind (a : α) (f : α → Conduct F β) : (done a >>= f) = f a := rfl

@[simp]
theorem touch_bind (x : Touch F) (next : x.Answer → Conduct F α) (f : α → Conduct F β) :
    (touch x next >>= f) = touch x fun a => next a >>= f := rfl

@[simp]
theorem perform_bind (x : Touch F) (f : x.Answer → Conduct F β) :
    (perform x >>= f) = touch x f := rfl

end Conduct

/-! ## Runs of several requests -/

/-- What requests share, and what each of them is about to do. -/
structure State (F σ ι α : Type) where
  shared : Shared F σ ι
  conduct : ι → Conduct F α

/-- A touch of a request, and what it was answered. -/
structure Event (F ι : Type) where
  request : ι
  touch : Touch F
  answer : touch.Answer

/-- What happens when requests touch what they share in any order. -/
inductive Run [DecidableEq ι] (host : Host F σ) (supply : Supply) (start : State F σ ι α) :
    List (Event F ι) → State F σ ι α → Prop where
  | nil : Run host supply start [] start
  | snoc {events : List (Event F ι)} {x : State F σ ι α} {i : ι} {t : Touch F} {a : t.Answer}
    {next : t.Answer → Conduct F α} {after : Shared F σ ι} :
    Run host supply start events x → x.conduct i = .touch t next →
    Performs host supply i x.shared t a after →
    Run host supply start (events ++ [⟨i, t, a⟩]) ⟨after, Function.update x.conduct i (next a)⟩

theorem Run.append [DecidableEq ι] {host : Host F σ} {supply : Supply} {x y z : State F σ ι α}
    {before after : List (Event F ι)} (h : Run host supply x before y)
    (k : Run host supply y after z) : Run host supply x (before ++ after) z := by
  induction k with
  | nil => rwa [List.append_nil]
  | snoc _ hc hp ih =>
    rw [← List.append_assoc]
    exact .snoc ih hc hp

/-- More may come of modules. -/
theorem Run.mono [DecidableEq ι] {host : Host F σ} {supply more : Supply} {x y : State F σ ι α}
    {events : List (Event F ι)}
    (hmore : ∀ options s outcome, supply options s outcome → more options s outcome)
    (h : Run host supply x events y) : Run host more x events y := by
  induction h with
  | nil => exact .nil
  | snoc _ hc hp ih =>
    refine .snoc ih hc ?_
    cases hp with
    | look => exact .look
    | seek => exact .seek
    | await hs hsupply => exact .await hs (hmore _ _ _ hsupply)
    | acquire hn => exact .acquire hn
    | release hn => exact .release hn
    | allocate => exact .allocate
    | peek => exact .peek
    | instantiate => exact .instantiate
    | fill => exact .fill
    | keep => exact .keep
    | forget => exact .forget

theorem Run.eq_of_nil [DecidableEq ι] {host : Host F σ} {supply : Supply} {start x : State F σ ι α}
    (h : Run host supply start [] x) : x = start := by
  generalize he : [] = events at h
  cases h with
  | nil => rfl
  | snoc => simp at he

/-- What the first event of a run leaves, the rest goes on from. -/
theorem Run.uncons [DecidableEq ι] {host : Host F σ} {supply : Supply} {start x : State F σ ι α}
    {e : Event F ι} {events : List (Event F ι)} (h : Run host supply start (e :: events) x) :
    ∃ next after, start.conduct e.request = .touch e.touch next ∧
      Performs host supply e.request start.shared e.touch e.answer after ∧
      Run host supply ⟨after, Function.update start.conduct e.request (next e.answer)⟩ events
        x := by
  generalize he : e :: events = all at h
  induction h generalizing events with
  | nil => cases he
  | @snoc before x i t a next after hrun hc hp ih =>
    cases before with
    | nil =>
      cases he
      cases hrun.eq_of_nil
      exact ⟨next, after, hc, hp, .nil⟩
    | cons first rest =>
      cases he
      obtain ⟨next', mid, hc', hp', hrest⟩ := ih rfl
      exact ⟨next', mid, hc', hp', .snoc hrest hc hp⟩

/-- The state that an event of a run happened in. -/
theorem Run.split [DecidableEq ι] {host : Host F σ} {supply : Supply} {start x : State F σ ι α}
    {before after : List (Event F ι)} {e : Event F ι}
    (h : Run host supply start (before ++ e :: after) x) :
    ∃ y next, Run host supply start before y ∧ y.conduct e.request = .touch e.touch next := by
  generalize he : before ++ e :: after = events at h
  induction h generalizing after with
  | nil => simp at he
  | @snoc events x i t a next _ hrun hc _ ih =>
    rcases List.eq_nil_or_concat after with rfl | ⟨rest, last, rfl⟩
    · obtain ⟨rfl, hlast⟩ := List.append_inj' he rfl
      cases hlast
      exact ⟨x, next, hrun, hc⟩
    · rw [List.concat_eq_append, ← List.cons_append, ← List.append_assoc] at he
      exact ih (List.append_inj' he rfl).1

/-! ## Parts that nothing comes between -/

/-- The conduct of request `i` goes on to another while no other request touches anything. -/
inductive Leads (host : Host F σ) (supply : Supply) (i : ι) :
    Shared F σ ι → Conduct F α → Shared F σ ι → Conduct F α → Prop where
  | refl {h : Shared F σ ι} {p : Conduct F α} : Leads host supply i h p h p
  | touch {h mid after : Shared F σ ι} {x : Touch F} {a : x.Answer}
    {next : x.Answer → Conduct F α} {p : Conduct F α} : Performs host supply i h x a mid →
    Leads host supply i mid (next a) after p → Leads host supply i h (.touch x next) after p

namespace Leads

variable {host : Host F σ} {supply : Supply} {i : ι} {h mid after : Shared F σ ι}

theorem trans {p q r : Conduct F α} (hp : Leads host supply i h p mid q)
    (hq : Leads host supply i mid q after r) : Leads host supply i h p after r := by
  induction hp with
  | refl => exact hq
  | touch ht _ ih => exact .touch ht (ih hq)

/-- What goes on behind a part does not matter to it. -/
theorem within {p q : Conduct F α} (hp : Leads host supply i h p after q)
    (f : α → Conduct F β) : Leads host supply i h (p >>= f) after (q >>= f) := by
  induction hp with
  | refl => exact .refl
  | touch ht _ ih => exact .touch ht ih

theorem bind {p : Conduct F α} {a : α} {f : α → Conduct F β} {q : Conduct F β}
    (hp : Leads host supply i h p mid (.done a)) (hf : Leads host supply i mid (f a) after q) :
    Leads host supply i h (p >>= f) after q := (hp.within f).trans hf

theorem perform {x : Touch F} {a : x.Answer} {f : x.Answer → Conduct F β} {q : Conduct F β}
    (ht : Performs host supply i h x a mid) (hf : Leads host supply i mid (f a) after q) :
    Leads host supply i h (Conduct.perform x >>= f) after q := .touch ht hf

/-- A request may go on at once. -/
theorem run [DecidableEq ι] {p q : Conduct F α} (hp : Leads host supply i h p after q)
    {conduct : ι → Conduct F α} (hi : conduct i = p) :
    ∃ events, Run host supply ⟨h, conduct⟩ events ⟨after, Function.update conduct i q⟩ ∧
      ∀ e ∈ events, e.request = i := by
  induction hp generalizing conduct with
  | refl =>
    subst hi
    rw [Function.update_eq_self]
    exact ⟨[], .nil, by simp⟩
  | @touch h mid after x a next p ht _ ih =>
    obtain ⟨events, hrun, hown⟩ := ih (Function.update_self i (next a) conduct)
    rw [Function.update_idem] at hrun
    exact ⟨_, (Run.snoc .nil hi ht).append hrun, List.forall_mem_cons.2 ⟨rfl, hown⟩⟩

end Leads

end ScriptLoader.Sharing
