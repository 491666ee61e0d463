import Mathlib.Data.List.Perm.Subperm
import ScriptLoader.Graph.Tree

/-!
# What the tree of a graph shows

The lines of a tree are a forest, read from the top: below a module that is written out stand its
dependencies, the static ones first, one level deeper. Nothing stands below any other line. Whether
a module is written out depends on the lines above it alone, so that it happens once for each
module that is reached from the entries and has a record.

* `Graph.Forest`: lines with what stands below them, and `Graph.Forest.lines` in their order.
* `Graph.Walk`: a walk through a graph in the order of the lines, with the records that it meets.
  A visit with enough fuel is one (`Graph.visit_walk`).
* `Graph.Drawn`: what the lines of a graph show, and that each graph is drawn so, line by line
  (`Graph.exists_drawn`).
-/

namespace ScriptLoader.Graph

/-! ## Forests -/

/-- Modules that stand below one line, each with those that stand below its own line. -/
inductive Forest where
  | nil
  | cons (dynamic : Bool) (specifier : Specifier) (mark : Mark) (below rest : Forest)

namespace Forest

/-- The lines from the top; what stands below a line is one level deeper. -/
def lines (depth : Nat) : Forest → List TreeLine
  | nil => []
  | cons dynamic s mark below rest =>
    ⟨depth, dynamic, s, mark⟩ :: (below.lines (depth + 1) ++ rest.lines depth)

/-- The modules on the first level, and whether they are imported dynamically. -/
def roots : Forest → List (Bool × Specifier)
  | nil => []
  | cons dynamic s _ _ rest => (dynamic, s) :: rest.roots

def append : Forest → Forest → Forest
  | nil, more => more
  | cons dynamic s mark below rest, more => cons dynamic s mark below (rest.append more)

@[simp] theorem lines_append (depth : Nat) (f more : Forest) :
    (f.append more).lines depth = f.lines depth ++ more.lines depth := by
  induction f with
  | nil => rfl
  | cons dynamic s mark below rest _ ih => simp [append, lines, ih]

@[simp] theorem roots_append (f more : Forest) :
    (f.append more).roots = f.roots ++ more.roots := by
  induction f with
  | nil => rfl
  | cons dynamic s mark below rest _ ih => simp [append, roots, ih]

end Forest

/-- The dependencies of a record in the order of their lines. -/
def dependencies (r : CompiledRecord) : List (Bool × Specifier) :=
  r.report.static.map (false, ·) ++ r.report.dynamic.map (true, ·)

theorem mem_dependencies {r : CompiledRecord} {t : Specifier} :
    (∃ dynamic, (dynamic, t) ∈ dependencies r) ↔ t ∈ r.report.static ∨ t ∈ r.report.dynamic := by
  simp [dependencies]

/-- How a module's line ends below lines of some modules. -/
def markBelow (g : Graph) (above : List Specifier) (s : Specifier) : Mark :=
  match g.get? s with
  | none => .skipped
  | some r => if s ∈ above then .repeated else .expanded (flags r)

/-- Below a line stand the dependencies of the record if the line writes it out, and nothing
otherwise. -/
def Forest.Follows (g : Graph) : Forest → Prop
  | .nil => True
  | .cons _ s mark below rest =>
    (below.roots =
      match mark, g.get? s with
      | .expanded _, some r => dependencies r
      | _, _ => []) ∧
    below.Follows g ∧ rest.Follows g

/-- The module of a line that is written out. -/
def TreeLine.writtenOut? (l : TreeLine) : Option Specifier :=
  match l.mark with
  | .expanded _ => some l.specifier
  | .repeated | .skipped => none

/-- The modules that are reached from the entries through records. -/
inductive Meets (g : Graph) : Specifier → Prop where
  | entry {s : Specifier} : s ∈ g.entries → Meets g s
  | dependency {s t : Specifier} {r : CompiledRecord} : Meets g s → g.get? s = some r →
    t ∈ r.report.static ∨ t ∈ r.report.dynamic → Meets g t

/-- What the lines of a graph show: a forest of its entries, and the records that are met. -/
structure Drawn (g : Graph) (forest : Forest) (met : List CompiledRecord) : Prop where
  entries : forest.roots = g.entries.map (false, ·)
  /-- What stands below each line. -/
  follows : forest.Follows g
  /-- A module without a record is skipped; any other is written out unless a line above has it. -/
  marks : ∀ front line back, forest.lines 0 = front ++ line :: back →
    line.mark = g.markBelow (front.map (·.specifier)) line.specifier
  /-- The records that are met are those that are written out, in the same order. -/
  writtenOut : (forest.lines 0).filterMap TreeLine.writtenOut? = met.map (·.specifier)
  once : (met.map (·.specifier)).Nodup
  mem_met : ∀ r, r ∈ met ↔ g.get? r.specifier = some r ∧ g.Meets r.specifier
  /-- One line for each entry and each dependency of the records that are met. -/
  length : (forest.lines 0).length = g.entries.length + (met.flatMap dependencies).length

/-! ## Walks -/

/-- The modules written out so far, after records were met. -/
def seenAfter (seen : List Specifier) (met : List CompiledRecord) : List Specifier :=
  (met.map (·.specifier)).reverse ++ seen

theorem mem_seenAfter {seen : List Specifier} {met : List CompiledRecord} {s : Specifier} :
    s ∈ seenAfter seen met ↔ s ∈ met.map (·.specifier) ∨ s ∈ seen := by
  rw [seenAfter, List.mem_append, List.mem_reverse]

theorem seenAfter_append (seen : List Specifier) (met more : List CompiledRecord) :
    seenAfter seen (met ++ more) = seenAfter (seenAfter seen met) more := by
  simp [seenAfter]

/-- A walk through a graph with some modules written out before, and the records that it meets. -/
inductive Walk (g : Graph) : List Specifier → Forest → List CompiledRecord → Prop where
  | done {seen : List Specifier} : Walk g seen .nil []
  | skipped {seen : List Specifier} {dynamic : Bool} {s : Specifier} {rest : Forest}
    {met : List CompiledRecord} : g.get? s = none → Walk g seen rest met →
    Walk g seen (.cons dynamic s .skipped .nil rest) met
  | repeated {seen : List Specifier} {dynamic : Bool} {s : Specifier} {r : CompiledRecord}
    {rest : Forest} {met : List CompiledRecord} : g.get? s = some r → s ∈ seen →
    Walk g seen rest met → Walk g seen (.cons dynamic s .repeated .nil rest) met
  | expanded {seen : List Specifier} {dynamic : Bool} {s : Specifier} {r : CompiledRecord}
    {below rest : Forest} {inside after : List CompiledRecord} : g.get? s = some r → s ∉ seen →
    below.roots = dependencies r → Walk g (s :: seen) below inside →
    Walk g (seenAfter (s :: seen) inside) rest after →
    Walk g seen (.cons dynamic s (.expanded (flags r)) below rest) (r :: (inside ++ after))

namespace Walk

variable {g : Graph} {seen : List Specifier} {forest : Forest} {met : List CompiledRecord}

theorem seenAfter_cons {s : Specifier} {r : CompiledRecord} (h : g.get? s = some r)
    (seen : List Specifier) (inside after : List CompiledRecord) :
    seenAfter seen (r :: (inside ++ after)) =
      seenAfter (seenAfter (s :: seen) inside) after := by
  have hname := specifier_of_get? h
  simp [seenAfter, hname]

/-- Two walks, one after the other. -/
theorem append {more : Forest} {after : List CompiledRecord} (h : Walk g seen forest met)
    (hmore : Walk g (seenAfter seen met) more after) :
    Walk g seen (forest.append more) (met ++ after) := by
  induction h with
  | done => exact hmore
  | skipped hget _ ih => exact .skipped hget (ih hmore)
  | repeated hget hseen _ ih => exact .repeated hget hseen (ih hmore)
  | @expanded seen _ s r _ _ inside between hget hnew hroots hbelow _ _ ih =>
    rw [List.cons_append, List.append_assoc]
    refine .expanded hget hnew hroots hbelow (ih ?_)
    rwa [← seenAfter_cons hget]

/-- The records that are met are those of the graph, and their modules were not written out. -/
theorem get?_of_mem (h : Walk g seen forest met) : ∀ r ∈ met, g.get? r.specifier = some r := by
  induction h with
  | done => simp
  | skipped _ _ ih => exact ih
  | repeated _ _ _ ih => exact ih
  | expanded hget _ _ _ _ ihbelow ih =>
    have hname := specifier_of_get? hget
    rw [List.forall_mem_cons, List.forall_mem_append]
    exact ⟨hname.symm ▸ hget, ihbelow, ih⟩

theorem nodup (h : Walk g seen forest met) (hseen : seen.Nodup) : (seenAfter seen met).Nodup := by
  induction h with
  | done => exact hseen
  | skipped _ _ ih => exact ih hseen
  | repeated _ _ _ ih => exact ih hseen
  | expanded hget hnew _ _ _ ihbelow ih =>
    rw [seenAfter_cons hget]
    exact ih (ihbelow (List.nodup_cons.2 ⟨hnew, hseen⟩))

theorem follows (h : Walk g seen forest met) : forest.Follows g := by
  induction h with
  | done => trivial
  | skipped _ _ ih => exact ⟨rfl, trivial, ih⟩
  | repeated _ _ _ ih => exact ⟨rfl, trivial, ih⟩
  | expanded hget _ hroots _ _ ihbelow ih =>
    refine ⟨?_, ihbelow, ih⟩
    rw [hget]
    exact hroots

/-- One line for each module on the first level, and one for each dependency of a record that is
met. -/
theorem length_lines (h : Walk g seen forest met) (depth : Nat) :
    (forest.lines depth).length = forest.roots.length + (met.flatMap dependencies).length := by
  induction h generalizing depth with
  | done => rfl
  | skipped _ _ ih | repeated _ _ _ ih =>
    simp only [Forest.lines, Forest.roots, List.nil_append, List.length_cons, ih]
    omega
  | expanded _ _ hroots _ _ ihbelow ih =>
    simp only [Forest.lines, Forest.roots, List.length_cons, List.length_append, ihbelow, ih,
      List.flatMap_cons, List.flatMap_append, ← hroots]
    omega

theorem writtenOut_lines (h : Walk g seen forest met) (depth : Nat) :
    (forest.lines depth).filterMap TreeLine.writtenOut? = met.map (·.specifier) := by
  induction h generalizing depth with
  | done => rfl
  | skipped _ _ ih => exact ih depth
  | repeated _ _ _ ih => exact ih depth
  | expanded hget _ _ _ _ ihbelow ih =>
    have hname := specifier_of_get? hget
    simp [Forest.lines, TreeLine.writtenOut?, ihbelow, ih, hname]

/-- The modules on the first level that have a record were written out, before or on the walk. -/
theorem roots_seen (h : Walk g seen forest met) : ∀ p ∈ forest.roots, ∀ r,
    g.get? p.2 = some r → p.2 ∈ seenAfter seen met := by
  induction h with
  | done => exact fun p hp => absurd hp List.not_mem_nil
  | skipped hget _ ih =>
    refine List.forall_mem_cons.2 ⟨fun r hr => ?_, ih⟩
    rw [hget] at hr
    cases hr
  | repeated _ hseen _ ih =>
    exact List.forall_mem_cons.2 ⟨fun _ _ => mem_seenAfter.2 (.inr hseen), ih⟩
  | expanded hget _ _ _ _ _ ih =>
    rw [seenAfter_cons hget]
    refine List.forall_mem_cons.2 ⟨fun _ _ => ?_, ih⟩
    exact mem_seenAfter.2 (.inr (mem_seenAfter.2 (.inr List.mem_cons_self)))

/-- So were the dependencies of the records that are met. -/
theorem dependencies_seen (h : Walk g seen forest met) : ∀ q ∈ met, ∀ p ∈ dependencies q, ∀ r,
    g.get? p.2 = some r → p.2 ∈ seenAfter seen met := by
  induction h with
  | done => exact fun q hq => absurd hq List.not_mem_nil
  | skipped _ _ ih => exact ih
  | repeated _ _ _ ih => exact ih
  | expanded hget _ hroots hbelow _ ihbelow ih =>
    rw [seenAfter_cons hget, List.forall_mem_cons, List.forall_mem_append, ← hroots]
    refine ⟨fun p hp r hr => ?_, fun q hq p hp r hr => ?_, ih⟩
    · exact mem_seenAfter.2 (.inr (hbelow.roots_seen p hp r hr))
    · exact mem_seenAfter.2 (.inr (ihbelow q hq p hp r hr))

/-- Records are met only where the first level leads. -/
theorem meets (h : Walk g seen forest met) (hroots : ∀ p ∈ forest.roots, g.Meets p.2) :
    ∀ r ∈ met, g.Meets r.specifier := by
  induction h with
  | done => simp
  | skipped _ _ ih => exact ih (List.forall_mem_cons.1 hroots).2
  | repeated _ _ _ ih => exact ih (List.forall_mem_cons.1 hroots).2
  | expanded hget _ hedges _ _ ihbelow ih =>
    obtain ⟨hfirst, hrest⟩ := List.forall_mem_cons.1 hroots
    rw [List.forall_mem_cons, List.forall_mem_append]
    refine ⟨(specifier_of_get? hget).symm ▸ hfirst, ihbelow fun p hp => ?_, ih hrest⟩
    rw [hedges] at hp
    exact .dependency hfirst hget (mem_dependencies.1 ⟨p.1, hp⟩)

/-- A walk from the entries meets every record that is reached. -/
theorem mem_of_meets (h : Walk g [] forest met)
    (hentries : forest.roots = g.entries.map (false, ·)) {s : Specifier} (hs : g.Meets s)
    {r : CompiledRecord} (hr : g.get? s = some r) : r ∈ met := by
  have hmem : ∀ {t q}, g.get? t = some q → t ∈ seenAfter [] met → q ∈ met := by
    intro t q hq ht
    obtain ⟨q', hq', rfl⟩ := List.mem_map.1 ((mem_seenAfter.1 ht).resolve_right List.not_mem_nil)
    rw [h.get?_of_mem q' hq'] at hq
    cases hq
    exact hq'
  induction hs generalizing r with
  | entry hentry =>
    exact hmem hr (h.roots_seen _ (hentries ▸ List.mem_map_of_mem hentry) r hr)
  | dependency _ hget hedge ih =>
    obtain ⟨dynamic, hdependency⟩ := mem_dependencies.2 hedge
    exact hmem hr (h.dependencies_seen _ (ih hget) _ hdependency r hr)

end Walk

/-! ## Which lines are written out -/

/-- Each line ends as the lines above it tell. -/
def Marked (g : Graph) : List Specifier → List TreeLine → Prop
  | _, [] => True
  | above, l :: rest =>
    l.mark = g.markBelow above l.specifier ∧ Marked g (above ++ [l.specifier]) rest

/-- The two lists have the same modules with a record. -/
def SameRecords (g : Graph) (above other : List Specifier) : Prop :=
  ∀ s r, g.get? s = some r → (s ∈ above ↔ s ∈ other)

section

variable {g : Graph} {above other : List Specifier}

theorem SameRecords.append_right (h : SameRecords g above other) (more : List Specifier) :
    SameRecords g (above ++ more) (other ++ more) := fun s r hr => by
  rw [List.mem_append, List.mem_append, h s r hr]

theorem markBelow_congr (h : SameRecords g above other) (s : Specifier) :
    g.markBelow above s = g.markBelow other s := by
  unfold markBelow
  cases hget : g.get? s with
  | none => rfl
  | some r => simp only [h s r hget]

theorem Marked.congr {lines : List TreeLine} (hl : Marked g above lines)
    (h : SameRecords g above other) : Marked g other lines := by
  induction lines generalizing above other with
  | nil => trivial
  | cons l rest ih =>
    exact ⟨hl.1.trans (markBelow_congr h _), ih hl.2 (h.append_right _)⟩

theorem marked_append {lines more : List TreeLine} :
    Marked g above (lines ++ more) ↔
      Marked g above lines ∧ Marked g (above ++ lines.map (·.specifier)) more := by
  induction lines generalizing above with
  | nil => simp [Marked]
  | cons l rest ih =>
    rw [List.cons_append, Marked, Marked, ih, and_assoc, List.map_cons, List.append_assoc,
      List.singleton_append]

end

namespace Walk

variable {g : Graph} {seen : List Specifier} {forest : Forest} {met : List CompiledRecord}

/-- A module with a record is written out once a line has it. -/
theorem sameRecords (h : Walk g seen forest met) (depth : Nat) :
    SameRecords g (seen ++ (forest.lines depth).map (·.specifier)) (seenAfter seen met) := by
  intro t q ht
  induction h generalizing depth with
  | done => simp [Forest.lines, seenAfter]
  | @skipped _ _ s _ _ hget _ ih =>
    have hne : t ≠ s := by
      rintro rfl
      rw [hget] at ht
      cases ht
    rw [← ih depth]
    simp [Forest.lines, hne]
  | repeated _ hseen _ ih =>
    rw [← ih depth]
    simp only [Forest.lines, List.nil_append, List.map_cons, List.mem_append, List.mem_cons]
    refine or_congr_right' fun hnot => or_iff_right ?_
    rintro rfl
    exact hnot hseen
  | expanded hget _ _ _ _ ihbelow ih =>
    simp only [List.mem_append] at ih ihbelow ⊢
    rw [seenAfter_cons hget, ← ih depth, ← ihbelow (depth + 1)]
    simp only [Forest.lines, List.map_cons, List.map_append, List.mem_append, List.mem_cons]
    tauto

theorem marked (h : Walk g seen forest met) (depth : Nat) :
    Marked g seen (forest.lines depth) := by
  induction h generalizing depth with
  | done => trivial
  | skipped hget hrest ih =>
    refine ⟨by simp only [markBelow, hget], (ih depth).congr fun t q ht => ?_⟩
    rw [List.mem_append, List.mem_singleton]
    refine (or_iff_left ?_).symm
    rintro rfl
    rw [hget] at ht
    cases ht
  | repeated hget hseen _ ih =>
    refine ⟨by simp only [markBelow, hget, if_pos hseen], (ih depth).congr fun t q _ => ?_⟩
    rw [List.mem_append, List.mem_singleton]
    refine (or_iff_left_of_imp ?_).symm
    rintro rfl
    exact hseen
  | @expanded seen _ s _ _ _ _ _ hget hnew _ hbelow _ ihbelow ih =>
    have hfirst : SameRecords g (s :: seen) (seen ++ [s]) := fun t q _ => by
      simp [or_comm]
    refine ⟨by simp only [markBelow, hget, if_neg hnew], marked_append.2 ⟨?_, ?_⟩⟩
    · exact (ihbelow (depth + 1)).congr hfirst
    · refine (ih depth).congr fun t q ht => ?_
      rw [← hbelow.sameRecords (depth + 1) t q ht, List.mem_append, List.mem_append,
        hfirst t q ht]

end Walk

/-! ## Enough fuel -/

/-- The fuel exceeds the number of modules that are not written out. -/
structure Fits (g : Graph) (fuel : Nat) (seen : List Specifier) : Prop where
  nodup : seen.Nodup
  known : ∀ s ∈ seen, s ∈ g.specifiers
  room : g.size < fuel + seen.length

namespace Fits

variable {g : Graph} {fuel : Nat} {seen : List Specifier}

theorem fuel_ne_zero (h : Fits g fuel seen) : fuel ≠ 0 := by
  have hle : seen.length ≤ g.specifiers.length := (h.nodup.subperm h.known).length_le
  have hroom := h.room
  rw [specifiers, List.length_map] at hle
  rw [size] at hroom
  omega

theorem cons (h : Fits g (fuel + 1) seen) {s : Specifier} {r : CompiledRecord}
    (hs : s ∉ seen) (hr : g.get? s = some r) : Fits g fuel (s :: seen) where
  nodup := List.nodup_cons.2 ⟨hs, h.nodup⟩
  known := List.forall_mem_cons.2
    ⟨specifier_of_get? hr ▸ List.mem_map_of_mem (mem_of_get? hr), h.known⟩
  room := by
    have hroom := h.room
    rw [List.length_cons]
    omega

/-- Fuel that was enough before a walk is enough behind it. -/
theorem walk (h : Fits g fuel seen) {forest : Forest} {met : List CompiledRecord}
    (hwalk : Walk g seen forest met) : Fits g fuel (seenAfter seen met) where
  nodup := hwalk.nodup h.nodup
  known := by
    intro s hs
    rcases mem_seenAfter.1 hs with hs | hs
    · obtain ⟨r, hr, rfl⟩ := List.mem_map.1 hs
      exact List.mem_map_of_mem (mem_of_get? (hwalk.get?_of_mem r hr))
    · exact h.known s hs
  room := by
    have hroom := h.room
    have hlength : seen.length ≤ (seenAfter seen met).length := by simp [seenAfter]
    omega

end Fits

section

variable {g : Graph} {fuel depth : Nat} {dynamic : Bool}

/-- Modules are walked through one after the other if each of them is. -/
theorem visitAll_walk
    (hvisit : ∀ {seen s}, Fits g fuel seen → ∃ forest met, forest.roots = [(dynamic, s)] ∧
      Walk g seen forest met ∧
      g.visit fuel depth dynamic seen s = (forest.lines depth, seenAfter seen met))
    (modules : List Specifier) {seen : List Specifier} (h : Fits g fuel seen) :
    ∃ forest met, forest.roots = modules.map (dynamic, ·) ∧ Walk g seen forest met ∧
      visitAll (g.visit fuel depth dynamic) seen modules =
        (forest.lines depth, seenAfter seen met) := by
  induction modules generalizing seen with
  | nil => exact ⟨.nil, [], rfl, .done, rfl⟩
  | cons s rest ih =>
    obtain ⟨first, met, hroots, hwalk, heq⟩ := hvisit (s := s) h
    obtain ⟨others, more, hothers, hmore, hall⟩ := ih (h.walk hwalk)
    refine ⟨first.append others, met ++ more, ?_, hwalk.append hmore, ?_⟩
    · rw [Forest.roots_append, hroots, hothers]
      rfl
    · simp only [visitAll, heq, hall, Forest.lines_append, seenAfter_append]

/-- A visit with enough fuel is a walk. -/
theorem visit_walk (g : Graph) (fuel depth : Nat) (dynamic : Bool) {seen : List Specifier}
    {s : Specifier} (h : Fits g fuel seen) :
    ∃ forest met, forest.roots = [(dynamic, s)] ∧ Walk g seen forest met ∧
      g.visit fuel depth dynamic seen s = (forest.lines depth, seenAfter seen met) := by
  induction fuel generalizing depth dynamic seen s with
  | zero => exact absurd rfl h.fuel_ne_zero
  | succ fuel ih =>
    rw [visit]
    cases hget : g.get? s with
    | none => exact ⟨.cons dynamic s .skipped .nil .nil, [], rfl, .skipped hget .done, rfl⟩
    | some r =>
      by_cases hseen : s ∈ seen
      · refine ⟨.cons dynamic s .repeated .nil .nil, [], rfl, .repeated hget hseen .done, ?_⟩
        simp [hseen, Forest.lines, seenAfter]
      · have hfits := h.cons hseen hget
        obtain ⟨static, met, hroots, hwalk, heq⟩ :=
          visitAll_walk (ih (depth + 1) false) r.report.static hfits
        obtain ⟨lazy, more, hlazy, hmore, hrest⟩ :=
          visitAll_walk (ih (depth + 1) true) r.report.dynamic (hfits.walk hwalk)
        refine ⟨.cons dynamic s (.expanded (flags r)) (static.append lazy) .nil,
          r :: (met ++ more ++ []), rfl,
          .expanded hget hseen ?_ (hwalk.append hmore) .done, ?_⟩
        · rw [Forest.roots_append, hroots, hlazy, dependencies]
        · simp [hseen, heq, hrest, Forest.lines, Walk.seenAfter_cons hget]

end

/-! ## Printing -/

theorem join_replicate_blanks (depth : Nat) :
    String.join (List.replicate depth "  ") = String.ofList (List.replicate (2 * depth) ' ') := by
  induction depth with
  | zero => rfl
  | succ depth ih =>
    rw [List.replicate_succ, String.join_cons, ih, Nat.mul_succ, Nat.add_comm,
      List.replicate_add, String.ofList_append]
    rfl

theorem text_expanded (r : CompiledRecord) : (Mark.expanded (flags r)).text =
    match r.report.isModule, r.cached with
    | true, false => ""
    | true, true => " [cached]"
    | false, false => " [script]"
    | false, true => " [script, cached]" := by
  unfold flags
  cases r.report.isModule <;> cases r.cached <;> decide

/-- A line is printed as its module, two blanks for each level above it, and how it ends. -/
theorem text_of_marked {g : Graph} {above : List Specifier} {l : TreeLine}
    (h : l.mark = g.markBelow above l.specifier) :
    l.text = String.ofList (List.replicate (2 * l.depth) ' ') ++
      (if l.dynamic then "import() " else "") ++ l.specifier.text ++
      (match g.get? l.specifier with
        | none => " (skipped)"
        | some r =>
          if l.mark = .repeated then " (see above)"
          else
            match r.report.isModule, r.cached with
            | true, false => ""
            | true, true => " [cached]"
            | false, false => " [script]"
            | false, true => " [script, cached]") ++ "\n" := by
  obtain ⟨depth, dynamic, s, mark⟩ := l
  dsimp only at h ⊢
  rw [TreeLine.text, join_replicate_blanks]
  congr 2
  unfold markBelow at h
  cases hg : g.get? s with
  | none =>
    simp only [hg] at h
    rw [h]
    rfl
  | some r =>
    simp only [hg] at h
    split at h
    · rw [h]
      rfl
    · rw [h]
      exact text_expanded r

/-- Every graph is drawn completely. Each line is printed as two blanks for each level above it,
`import() ` if the module is imported dynamically, the module, and how it ends: a module without a
record is skipped, one that is written out further up is seen there, and for any other one stands
what kind of record it has. -/
theorem exists_drawn (g : Graph) : ∃ forest met, Drawn g forest met ∧
    g.tree = String.join ((forest.lines 0).map fun l =>
      String.ofList (List.replicate (2 * l.depth) ' ') ++
      (if l.dynamic then "import() " else "") ++ l.specifier.text ++
      (match g.get? l.specifier with
        | none => " (skipped)"
        | some r =>
          if l.mark = .repeated then " (see above)"
          else
            match r.report.isModule, r.cached with
            | true, false => ""
            | true, true => " [cached]"
            | false, false => " [script]"
            | false, true => " [script, cached]") ++ "\n") := by
  have hfits : Fits g (g.size + 1) [] := ⟨.nil, by simp, by simp⟩
  obtain ⟨forest, met, hroots, hwalk, heq⟩ :=
    visitAll_walk (visit_walk g (g.size + 1) 0 false) g.entries hfits
  have hlines : g.treeLines = forest.lines 0 := by rw [treeLines, heq]
  have honce : (seenAfter [] met).Nodup := hwalk.nodup .nil
  have hmarks : ∀ front line back, forest.lines 0 = front ++ line :: back →
      line.mark = g.markBelow (front.map (·.specifier)) line.specifier := by
    intro front line back hsplit
    have hmarked := hwalk.marked 0
    rw [hsplit, marked_append] at hmarked
    exact hmarked.2.1
  refine ⟨forest, met, ⟨hroots, hwalk.follows, hmarks, hwalk.writtenOut_lines 0, ?_, ?_, ?_⟩, ?_⟩
  · exact (List.reverse_perm _).nodup_iff.1 (by simpa [seenAfter] using honce)
  · intro r
    constructor
    · intro hr
      refine ⟨hwalk.get?_of_mem r hr, hwalk.meets (fun p hp => ?_) r hr⟩
      rw [hroots] at hp
      obtain ⟨s, hs, rfl⟩ := List.mem_map.1 hp
      exact .entry hs
    · rintro ⟨hr, hmeets⟩
      exact hwalk.mem_of_meets hroots hmeets hr
  · rw [hwalk.length_lines 0, hroots, List.length_map]
  · rw [tree, hlines]
    refine congrArg String.join (List.map_congr_left fun l hl => ?_)
    obtain ⟨front, back, hsplit⟩ := List.append_of_mem hl
    exact text_of_marked (hmarks front l back hsplit)

end ScriptLoader.Graph
