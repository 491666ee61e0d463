import Mathlib.Data.List.Nodup
import ScriptLoader.Graph.Basic

/-!
# Depth-first order

The modules of a graph in the order in which a walk along static dependencies finishes them. The
walk takes the dependencies of a module in the order of import and the module itself behind them.
It passes over what is known already, what it finished itself, and what is on its path. A module
without a record has no dependencies. What a walk is inside of waits for whatever is finished
meanwhile.

* `Graph.postorder`: the order behind one module, and `Graph.inTurn` behind several.
* `Graph.nodup_postorder`, `Graph.fresh_of_mem_postorder`: no module is in it twice, and none that
  was known or is on the path.
* `Graph.Visit`, `Graph.WaitsFor`: the visits that a walk makes, and which module waits for which.
* `Graph.WaitsFor.mem_later`: what waits for a module is finished later.
-/

namespace ScriptLoader.Graph

/-- Visits modules one after the other. What one visit finished is known to the next ones. -/
def inTurn (visit : (Specifier → Bool) → Specifier → List Specifier) :
    (Specifier → Bool) → List Specifier → List Specifier
  | _, [] => []
  | known, d :: ds =>
    let first := visit known d
    first ++ inTurn visit (fun t => known t || first.contains t) ds

/-- The modules with a record that are not on a path. -/
def offPath (g : Graph) (path : List Specifier) : List Specifier :=
  g.specifiers.filter fun s => !path.contains s

theorem length_offPath_cons_lt {g : Graph} {path : List Specifier} {s : Specifier}
    {r : CompiledRecord} (hs : path.contains s = false) (hr : g.get? s = some r) :
    (g.offPath (s :: path)).length < (g.offPath path).length := by
  have hmem : s ∈ g.offPath path := by
    refine List.mem_filter.2 ⟨contains_iff.1 ?_, by rw [hs]; rfl⟩
    rw [contains, hr]
    rfl
  have hsub : g.offPath (s :: path) = (g.offPath path).filter fun t => !(t == s) := by
    unfold offPath
    rw [List.filter_filter]
    refine List.filter_congr fun t _ => ?_
    rw [List.contains_cons, Bool.not_or]
  rw [hsub]
  exact List.length_filter_lt_length_iff_exists.2 ⟨s, hmem, by simp⟩

/-- The order in which the walk behind a module finishes modules, where `path` is what the walk is
inside of. -/
def postorder (g : Graph) (path : List Specifier) (known : Specifier → Bool) (s : Specifier) :
    List Specifier :=
  if _new : known s = false ∧ path.contains s = false then
    match _record : g.get? s with
    | none => [s]
    | some r =>
      inTurn (fun known d => postorder g (s :: path) known d) known r.report.static ++ [s]
  else []
termination_by (g.offPath path).length
decreasing_by exact length_offPath_cons_lt _new.2 _record

variable {g : Graph} {path : List Specifier} {known : Specifier → Bool} {s : Specifier}

theorem postorder_of_known (h : known s = true) : g.postorder path known s = [] := by
  rw [postorder, dif_neg]
  simp [h]

theorem postorder_of_mem (h : s ∈ path) : g.postorder path known s = [] := by
  rw [postorder, dif_neg]
  simp [h]

theorem postorder_of_missing (hk : known s = false) (hs : s ∉ path) (hr : g.get? s = none) :
    g.postorder path known s = [s] := by
  rw [postorder, dif_pos ⟨hk, by simpa using hs⟩]
  split
  · rfl
  · next r hr' => simp [hr] at hr'

theorem postorder_of_record {r : CompiledRecord} (hk : known s = false) (hs : s ∉ path)
    (hr : g.get? s = some r) :
    g.postorder path known s = inTurn (g.postorder (s :: path)) known r.report.static ++ [s] := by
  rw [postorder, dif_pos ⟨hk, by simpa using hs⟩]
  split
  · next hr' => simp [hr] at hr'
  · next q hq =>
    rw [hr] at hq
    cases hq
    rfl

/-! ## What is in the order -/

/-- A list without repetitions of modules that are not known and not on a path. -/
structure Fresh (path : List Specifier) (known : Specifier → Bool) (order : List Specifier) :
    Prop where
  nodup : order.Nodup
  unknown : ∀ t ∈ order, known t = false
  off : ∀ t ∈ order, t ∉ path

theorem Fresh.nil : Fresh path known [] := ⟨.nil, by simp, by simp⟩

theorem fresh_inTurn {visit : (Specifier → Bool) → Specifier → List Specifier}
    (hv : ∀ known d, Fresh path known (visit known d)) (known : Specifier → Bool)
    (ds : List Specifier) : Fresh path known (inTurn visit known ds) := by
  induction ds generalizing known with
  | nil => exact .nil
  | cons d ds ih =>
    have hd := hv known d
    have hds := ih fun t => known t || (visit known d).contains t
    have later : ∀ t ∈ inTurn visit (fun t => known t || (visit known d).contains t) ds,
        known t = false ∧ t ∉ visit known d := by
      intro t ht
      simpa using hds.unknown t ht
    refine ⟨?_, ?_, ?_⟩
    · refine List.nodup_append.2 ⟨hd.nodup, hds.nodup, ?_⟩
      rintro t ht _ ht' rfl
      exact (later t ht').2 ht
    · intro t ht
      exact (List.mem_append.1 ht).elim (hd.unknown t) fun ht => (later t ht).1
    · intro t ht
      exact (List.mem_append.1 ht).elim (hd.off t) (hds.off t)

theorem fresh_postorder (g : Graph) (path : List Specifier) (known : Specifier → Bool)
    (s : Specifier) : Fresh path known (g.postorder path known s) := by
  induction path, known, s using postorder.induct g with
  | case1 path known s hnew hr =>
    have hs : s ∉ path := by simpa using hnew.2
    rw [postorder_of_missing hnew.1 hs hr]
    exact ⟨List.nodup_singleton s, by simpa using hnew.1, by simpa using hs⟩
  | case2 path known s hnew r hr ih =>
    have hs : s ∉ path := by simpa using hnew.2
    -- The dependencies are walked with `s` on the path, so `s` is not among what they finish.
    have hin := fresh_inTurn (fun known d => ih known d) known r.report.static
    rw [postorder_of_record hnew.1 hs hr]
    refine ⟨?_, ?_, ?_⟩
    · refine List.nodup_append.2 ⟨hin.nodup, List.nodup_singleton s, ?_⟩
      rintro t ht _ ht' rfl
      exact hin.off t ht (List.mem_singleton.1 ht' ▸ List.mem_cons_self)
    · intro t ht
      rcases List.mem_append.1 ht with ht | ht
      · exact hin.unknown t ht
      · exact List.mem_singleton.1 ht ▸ hnew.1
    · intro t ht
      rcases List.mem_append.1 ht with ht | ht
      · exact fun hp => hin.off t ht (List.mem_cons_of_mem _ hp)
      · exact List.mem_singleton.1 ht ▸ hs
  | case3 path known s hold =>
    have hskip : g.postorder path known s = [] := by rw [postorder, dif_neg hold]
    rw [hskip]
    exact .nil

theorem nodup_postorder : (g.postorder path known s).Nodup := (fresh_postorder g path known s).nodup

theorem fresh_of_mem_postorder {t : Specifier} (h : t ∈ g.postorder path known s) :
    known t = false ∧ t ∉ path :=
  ⟨(fresh_postorder g path known s).unknown t h, (fresh_postorder g path known s).off t h⟩

/-! ## Waiting -/

/-- What is known behind visits one after the other. -/
def knownBehind (visit : (Specifier → Bool) → Specifier → List Specifier)
    (known : Specifier → Bool) (ds : List Specifier) : Specifier → Bool :=
  fun t => known t || (inTurn visit known ds).contains t

theorem inTurn_append (visit : (Specifier → Bool) → Specifier → List Specifier)
    (known : Specifier → Bool) (before after : List Specifier) :
    inTurn visit known (before ++ after) =
      inTurn visit known before ++ inTurn visit (knownBehind visit known before) after := by
  induction before generalizing known with
  | nil =>
    have hknown : knownBehind visit known [] = known := by
      funext t
      simp [knownBehind, inTurn]
    rw [hknown]
    rfl
  | cons d before ih =>
    have hknown : knownBehind visit (fun t => known t || (visit known d).contains t) before =
        knownBehind visit known (d :: before) := by
      funext t
      simp [knownBehind, inTurn, Bool.or_assoc]
    rw [List.cons_append, inTurn, ih, hknown, inTurn, List.append_assoc]

/-- The visits of the walk behind `s`: the one of `s`, and of a module that it is inside of those of
the dependencies. A visit has what the walk is inside of, and what it knows by then. -/
inductive Visit (g : Graph) (path : List Specifier) (known : Specifier → Bool) (s : Specifier) :
    List Specifier → (Specifier → Bool) → Specifier → Prop where
  | self : Visit g path known s path known s
  | dependency {p : List Specifier} {k : Specifier → Bool} {x d : Specifier} {r : CompiledRecord}
    {before after : List Specifier} : Visit g path known s p k x → k x = false → x ∉ p →
    g.get? x = some r → r.report.static = before ++ d :: after →
    Visit g path known s (x :: p) (knownBehind (g.postorder (x :: p)) k before) d

/-- What a visit finishes is finished in a row. -/
theorem Visit.isInfix {p : List Specifier} {k : Specifier → Bool} {x : Specifier}
    (h : Visit g path known s p k x) : g.postorder p k x <:+: g.postorder path known s := by
  induction h with
  | self => exact List.infix_rfl
  | @dependency p k x d r before after _ hk hx hr hd ih =>
    refine List.IsInfix.trans ?_ ih
    rw [postorder_of_record hk hx hr, hd, inTurn_append, inTurn]
    exact ⟨inTurn (g.postorder (x :: p)) k before, _, by simp only [List.append_assoc]; rfl⟩

/-- The walk behind an entry finishes the module `t` while it is inside of `x`. -/
def WaitsFor (g : Graph) (known : Specifier → Bool) (entry x t : Specifier) : Prop :=
  ∃ p k, Visit g [] known entry p k x ∧ t ∈ g.postorder p k x ∧ t ≠ x

/-- A visit that finishes anything finishes its module last. -/
theorem exists_postorder_eq {t : Specifier} (h : t ∈ g.postorder path known s) :
    ∃ before, g.postorder path known s = before ++ [s] := by
  obtain ⟨hk, hp⟩ : known s = false ∧ s ∉ path := by
    refine ⟨Bool.eq_false_iff.2 fun hk => ?_, fun hs => ?_⟩
    · rw [postorder_of_known hk] at h
      cases h
    · rw [postorder_of_mem hs] at h
      cases h
  cases hr : g.get? s with
  | none => exact ⟨[], postorder_of_missing hk hp hr⟩
  | some r => exact ⟨_, postorder_of_record hk hp hr⟩

/-- What waits for a module is finished later. -/
theorem WaitsFor.mem_later {entry x t : Specifier} {done later : List Specifier}
    (h : g.WaitsFor known entry x t) (horder : g.postorder [] known entry = done ++ t :: later) :
    x ∈ later := by
  obtain ⟨p, k, hvisit, ht, hne⟩ := h
  obtain ⟨before, hbefore⟩ := exists_postorder_eq ht
  rw [hbefore] at ht
  obtain ⟨u, v, rfl⟩ := List.append_of_mem
    ((List.mem_append.1 ht).resolve_right fun h => hne (List.mem_singleton.1 h))
  obtain ⟨a, b, hab⟩ := hvisit.isInfix
  have hsplit : (a ++ u) ++ t :: (v ++ [x] ++ b) = done ++ t :: later := by
    rw [← horder, ← hab, hbefore]
    simp
  have hnodup : ((a ++ u) ++ t :: (v ++ [x] ++ b)).Nodup := by
    rw [hsplit, ← horder]
    exact nodup_postorder
  obtain ⟨hu, hv⟩ : t ∉ a ++ u ∧ t ∉ v ++ [x] ++ b :=
    not_or.1 (mt List.mem_append.2 (List.nodup_cons.1 (List.nodup_middle.1 hnodup)).1)
  obtain ⟨-, -, rfl⟩ := (List.append_cons_inj_of_notMem hu hv).1 hsplit
  simp

end ScriptLoader.Graph
