import Mathlib.Data.List.Nodup
import Mathlib.Data.List.Perm.Basic
import ScriptLoader.Resolution.Basic

/-!
# Resolutions whose operations complete in any order

A resolution is a worklist: a completed operation moves a record into the graph and starts the
operations of the dependencies that are not known, pending or skipped. Nothing is assumed about the
order in which operations complete, nor about the modules: they may depend on each other in circles,
on themselves, or on a module more than once.

* `Resolution.Wanted`: the least set of modules that holds the entries and is closed under
  dependencies, both without the modules that are skipped.
* `Course.Sound`: what every completion preserves (`Course.sound_finish`), and so what holds of
  every course (`Course.sound_of_reaches`).
* `Resolution.resolves_wanted_in_any_order`: no operation is started twice, the pending modules are
  those in flight, and the graph of a finished course is the wanted set.
-/

namespace ScriptLoader.Resolution

/-- The modules that a resolution has to find: the least set that holds the entries and is closed
under dependencies, without what is skipped. -/
inductive Wanted (skip : Specifier → Bool) (outcomes : Outcomes) (entries : List Specifier) :
    Specifier → Prop where
  | entry {s : Specifier} : s ∈ entries → skip s = false → Wanted skip outcomes entries s
  | dependency {s d : Specifier} {r : CompiledRecord} : Wanted skip outcomes entries s →
    outcomes.of s = .ok r → d ∈ dependencies r → skip d = false → Wanted skip outcomes entries d

theorem Wanted.not_skipped {skip : Specifier → Bool} {outcomes : Outcomes}
    {entries : List Specifier} {s : Specifier} (h : Wanted skip outcomes entries s) :
    skip s = false := by
  cases h with
  | entry _ hs => exact hs
  | dependency _ _ _ hs => exact hs

/-- Every record is of an entry, or stands behind a record that lists it. -/
def Listed (entries : List Specifier) (records : List CompiledRecord) : Prop :=
  ∀ before r after, records = before ++ r :: after →
    r.specifier ∈ entries ∨ ∃ q ∈ before, r.specifier ∈ dependencies q

theorem listed_append_singleton {entries : List Specifier} {records : List CompiledRecord}
    {r : CompiledRecord} (h : Listed entries records)
    (hr : r.specifier ∈ entries ∨ ∃ q ∈ records, r.specifier ∈ dependencies q) :
    Listed entries (records ++ [r]) := by
  intro before x after heq
  rcases List.append_eq_append_iff.1 heq with ⟨mid, hb, hx⟩ | ⟨mid, hr', ha⟩
  · cases mid with
    | nil =>
      simp only [List.nil_append, List.cons.injEq] at hx
      rw [List.append_nil] at hb
      rw [← hx.1, hb]
      exact hr
    | cons y mid => simp at hx
  · cases mid with
    | nil =>
      simp only [List.nil_append, List.cons.injEq] at ha
      rw [List.append_nil] at hr'
      rw [ha.1, ← hr']
      exact hr
    | cons y mid =>
      simp only [List.cons_append, List.cons.injEq] at ha
      exact h before x mid (by rw [hr', ha.1])

/-! ## What is discovered -/

theorem nodup_eraseDups (l : List Specifier) : l.eraseDups.Nodup := by
  induction hn : l.length using Nat.strongRecOn generalizing l with
  | ind n ih =>
    cases l with
    | nil => simp
    | cons a l =>
      rw [List.eraseDups_cons, List.nodup_cons]
      have hlen : (l.filter fun b => !b == a).length < n := by
        have := List.length_filter_le (fun b => !b == a) l
        simp only [List.length_cons] at hn
        omega
      exact ⟨by simp, ih _ hlen _ rfl⟩

theorem nodup_fresh (skip : Specifier → Bool) (r : Resolution) (found : List Specifier) :
    (r.fresh skip found).Nodup := nodup_eraseDups _

theorem mem_fresh {skip : Specifier → Bool} {r : Resolution} {found : List Specifier}
    {s : Specifier} : s ∈ r.fresh skip found ↔
      s ∈ found ∧ s ∉ r.graph.specifiers ∧ s ∉ r.pending ∧ skip s = false := by
  simp [fresh, ← Graph.contains_iff, and_assoc]

/-! ## The invariant -/

/-- What holds of every course of a resolution of entries. -/
structure Course.Sound (skip : Specifier → Bool) (outcomes : Outcomes) (entries : List Specifier)
    (c : Course) : Prop where
  pending_eq : c.resolution.pending = c.inFlight
  started_perm : c.started.Perm (c.resolution.graph.specifiers ++ c.inFlight)
  started_nodup : c.started.Nodup
  started_wanted : ∀ s ∈ c.started, Wanted skip outcomes entries s
  entry_started : ∀ s ∈ entries, skip s = false → s ∈ c.started
  dependency_started : ∀ r ∈ c.resolution.graph.records, ∀ d ∈ dependencies r, skip d = false →
    d ∈ c.started
  record_eq : ∀ r ∈ c.resolution.graph.records, outcomes.of r.specifier = .ok r
  inFlight_listed : ∀ s ∈ c.inFlight,
    s ∈ entries ∨ ∃ r ∈ c.resolution.graph.records, s ∈ dependencies r
  records_listed : Listed entries c.resolution.graph.records

namespace Course

variable {skip : Specifier → Bool} {outcomes : Outcomes} {entries : List Specifier} {limit : Nat}

theorem sound_start : (start skip limit entries).Sound skip outcomes entries := by
  have hmem : ∀ s, s ∈ (start skip limit entries).started ↔ s ∈ entries ∧ skip s = false := by
    intro s
    simp [start, Resolution.start, discover, mem_fresh, Graph.specifiers]
  exact
    { pending_eq := by simp [start, Resolution.start, discover]
      started_perm := by simp [start, Resolution.start, discover, Graph.specifiers]
      started_nodup := nodup_fresh _ _ _
      started_wanted := fun s hs => .entry ((hmem s).1 hs).1 ((hmem s).1 hs).2
      entry_started := fun s hs hk => (hmem s).2 ⟨hs, hk⟩
      dependency_started := by simp [start, Resolution.start, discover]
      record_eq := by simp [start, Resolution.start, discover]
      inFlight_listed := fun s hs => Or.inl ((hmem s).1 hs).1
      records_listed := by simp [start, Resolution.start, discover, Listed] }

theorem Sound.mem_started_iff {c : Course} (h : c.Sound skip outcomes entries) {s : Specifier} :
    s ∈ c.started ↔ s ∈ c.resolution.graph.specifiers ∨ s ∈ c.inFlight := by
  rw [h.started_perm.mem_iff, List.mem_append]

theorem Sound.disjoint {c : Course} (h : c.Sound skip outcomes entries) {s : Specifier}
    (hs : s ∈ c.inFlight) : s ∉ c.resolution.graph.specifiers := by
  have hn := (h.started_perm.nodup_iff.1 h.started_nodup)
  exact fun hg => (List.disjoint_of_nodup_append hn) hg hs

theorem sound_finish {c : Course} (h : c.Sound skip outcomes entries) {s : Specifier}
    {next : Resolution} {new : List Specifier} (hs : s ∈ c.inFlight)
    (hf : finish skip (outcomes.of s) c.resolution = .ok (next, new)) :
    (⟨next, c.inFlight.erase s ++ new, c.started ++ new⟩ : Course).Sound skip outcomes entries := by
  obtain ⟨-, record, hrec, hd⟩ := finish_eq_ok_iff.1 hf
  have hname : record.specifier = s := outcomes.specifier_eq hrec
  have hnot : record.specifier ∉ c.resolution.graph.specifiers := hname ▸ h.disjoint hs
  set taken := c.resolution.take record with htaken
  simp only [discover, Prod.mk.injEq] at hd
  obtain ⟨rfl, rfl⟩ := hd
  have hrecords : taken.graph.records = c.resolution.graph.records ++ [record] :=
    Graph.records_insert_of_notMem hnot
  have hkeys : taken.graph.specifiers = c.resolution.graph.specifiers ++ [s] := by
    simp [Graph.specifiers, hrecords, hname]
  have hpending : taken.pending = c.inFlight.erase s := by
    simp [htaken, take, h.pending_eq, hname]
  -- Started operations are those of the graph and those in flight, before and after.
  have hperm : c.started.Perm (taken.graph.specifiers ++ c.inFlight.erase s) := by
    refine h.started_perm.trans ?_
    rw [hkeys, List.append_assoc]
    exact (List.perm_cons_erase hs).append_left _
  have hfresh : ∀ d, d ∈ taken.fresh skip (dependencies record) ↔
      d ∈ dependencies record ∧ d ∉ c.started ∧ skip d = false := by
    intro d
    rw [mem_fresh, hpending, hperm.mem_iff, List.mem_append, not_or]
    tauto
  have hwanted : Wanted skip outcomes entries s :=
    h.started_wanted s (h.mem_started_iff.2 (Or.inr hs))
  exact
    { pending_eq := by rw [hpending]
      started_perm := by
        rw [← List.append_assoc]
        exact hperm.append_right _
      started_nodup := by
        refine List.nodup_append.2 ⟨h.started_nodup, nodup_fresh _ _ _, ?_⟩
        rintro a ha _ hb rfl
        exact ((hfresh a).1 hb).2.1 ha
      started_wanted := by
        intro d hd
        rcases List.mem_append.1 hd with hd | hd
        · exact h.started_wanted d hd
        · obtain ⟨hdep, -, hk⟩ := (hfresh d).1 hd
          exact .dependency hwanted hrec hdep hk
      entry_started := fun e he hk => List.mem_append_left _ (h.entry_started e he hk)
      dependency_started := by
        intro r hr d hd hk
        rw [hrecords, List.mem_append, List.mem_singleton] at hr
        by_cases hold : d ∈ c.started
        · exact List.mem_append_left _ hold
        · rcases hr with hr | rfl
          · exact absurd (h.dependency_started r hr d hd hk) hold
          · exact List.mem_append_right _ ((hfresh d).2 ⟨hd, hold, hk⟩)
      record_eq := by
        intro r hr
        rw [hrecords, List.mem_append, List.mem_singleton] at hr
        rcases hr with hr | rfl
        · exact h.record_eq r hr
        · rw [hname, hrec]
      inFlight_listed := by
        intro d hd
        rw [hrecords]
        rcases List.mem_append.1 hd with hd | hd
        · rcases h.inFlight_listed d (List.mem_of_mem_erase hd) with he | ⟨r, hr, hdr⟩
          · exact Or.inl he
          · exact Or.inr ⟨r, List.mem_append_left _ hr, hdr⟩
        · exact Or.inr ⟨record, by simp, ((hfresh d).1 hd).1⟩
      records_listed := by
        rw [hrecords]
        exact listed_append_singleton h.records_listed (hname ▸ h.inFlight_listed s hs) }

theorem sound_of_reaches {c d : Course} (h : Reaches skip outcomes c d)
    (hc : c.Sound skip outcomes entries) : d.Sound skip outcomes entries := by
  induction h with
  | refl => exact hc
  | complete _ hs hf ih => exact sound_finish ih hs hf

/-- With nothing in flight, the graph holds what is wanted. -/
theorem Sound.mem_specifiers_iff {c : Course} (h : c.Sound skip outcomes entries)
    (hdone : c.inFlight = []) {s : Specifier} :
    s ∈ c.resolution.graph.specifiers ↔ Wanted skip outcomes entries s := by
  have hstarted : ∀ {x}, x ∈ c.started ↔ x ∈ c.resolution.graph.specifiers := by
    intro x
    simp [h.mem_started_iff, hdone]
  constructor
  · exact fun hs => h.started_wanted s (hstarted.2 hs)
  · intro hw
    induction hw with
    | entry he hk => exact hstarted.1 (h.entry_started _ he hk)
    | @dependency x d r _ hr hd hk ih =>
      obtain ⟨q, hq, rfl⟩ := List.mem_map.1 ih
      have : r = q := by
        have := h.record_eq q hq
        rw [hr] at this
        exact Except.ok.inj this
      subst this
      exact hstarted.1 (h.dependency_started r hq d hd hk)

end Course

/-! ## What a resolution comes to -/

/-- Whatever order operations complete in: none is started twice or for a skipped module, the
pending modules are those in flight and no record of them is there, and a graph that is returned
holds the wanted modules, each with the record that its operation made, behind a record that lists
it unless it is an entry. -/
theorem resolves_wanted_in_any_order {skip : Specifier → Bool} {outcomes : Outcomes} {limit : Nat}
    {entries : List Specifier} {c : Course}
    (h : Reaches skip outcomes (.start skip limit entries) c) :
    (c.started.Nodup ∧ ∀ s ∈ c.started, skip s = false) ∧
    (c.inFlight.Nodup ∧ (∀ s, s ∈ c.resolution.pending ↔ s ∈ c.inFlight) ∧
      ∀ s ∈ c.resolution.pending, c.resolution.graph.contains s = false) ∧
    ∀ g, Returns skip outcomes c (.ok g) →
      (∀ s, g.contains s = true ↔ Wanted skip outcomes entries s) ∧
      (∀ s r, g.get? s = some r → outcomes.of s = .ok r) ∧
      Listed entries g.records := by
  have hc := Course.sound_of_reaches h Course.sound_start
  refine ⟨⟨hc.started_nodup, fun s hs => (hc.started_wanted s hs).not_skipped⟩, ⟨?_, ?_, ?_⟩, ?_⟩
  · exact (List.nodup_append.1 (hc.started_perm.nodup_iff.1 hc.started_nodup)).2.1
  · intro s
    rw [hc.pending_eq]
  · intro s hs
    rw [hc.pending_eq] at hs
    simpa [← Graph.contains_iff] using hc.disjoint hs
  · intro g hg
    cases hg with
    | graph hdone =>
      refine ⟨fun s => Graph.contains_iff.trans (hc.mem_specifiers_iff hdone), ?_,
        hc.records_listed⟩
      intro s r hr
      have := hc.record_eq r (Graph.mem_of_get? hr)
      rwa [Graph.specifier_of_get? hr] at this

/-- Two modules that import each other and a third one that both import. -/
def circle : Outcomes where
  of s :=
    let record (static : List Specifier) : CompiledRecord :=
      { specifier := s, location := s.text, report := { static }, outcome := .ok "" }
    if s = ⟨"a"⟩ then .ok (record [⟨"b"⟩, ⟨"c"⟩])
    else if s = ⟨"b"⟩ then .ok (record [⟨"c"⟩, ⟨"a"⟩])
    else .ok (record [])
  specifier_eq := by
    intro s r h
    dsimp only at h
    split at h
    · cases h; rfl
    · split at h
      · cases h; rfl
      · cases h; rfl

theorem circle_resolves_in_any_order :
    ∃ c, Reaches (fun _ => false) circle (.start (fun _ => false) 3 [⟨"a"⟩]) c ∧
      Returns (fun _ => false) circle c (.ok c.resolution.graph) ∧
      c.started = [⟨"a"⟩, ⟨"b"⟩, ⟨"c"⟩] ∧
      c.resolution.graph.specifiers = [⟨"a"⟩, ⟨"c"⟩, ⟨"b"⟩] ∧
      ∀ s, c.resolution.graph.contains s = true ↔ Wanted (fun _ => false) circle [⟨"a"⟩] s := by
  have h : Reaches (fun _ => false) circle (.start (fun _ => false) 3 [⟨"a"⟩])
    (.start (fun _ => false) 3 [⟨"a"⟩]) := .refl _
  have ha := Reaches.complete h (s := ⟨"a"⟩) (by decide) rfl
  have hc := Reaches.complete ha (s := ⟨"c"⟩) (by decide) rfl
  have hb := Reaches.complete hc (s := ⟨"b"⟩) (by decide) rfl
  refine ⟨_, hb, .graph (by decide), by decide, by decide, ?_⟩
  exact ((resolves_wanted_in_any_order hb).2.2 _ (.graph (by decide))).1

end ScriptLoader.Resolution
