import Mathlib.Data.Set.Operations
import ScriptLoader.Emit.OutputPath
import ScriptLoader.Proofs.Disk.Paths
import ScriptLoader.Proofs.Graph.Records
import ScriptLoader.Proofs.Specifier.Extension

/-!
# The paths of written modules

Whatever a specifier is, its file lies inside of the output directory: the path goes down along
names only, and ends in `.js`. The modules of a graph are written only if each of them has a file of
its own; otherwise the first module whose file is taken is refused, with the one that has it.

* `Emit.InsideOutput`: the path of a module goes down along names.
* `Graph.AssignsPaths`: what the paths of a graph come to.
* `Graph.outputPaths_inside_and_apart`: that holds of every specifier, and of every graph.
-/

namespace ScriptLoader

namespace Emit

/-! ## One module -/

/-- The path of a module goes down along names, and the last of them ends in `.js`. -/
structure InsideOutput (s : Specifier) : Prop where
  isName : ∀ name ∈ Text.splitOn '/' (outputPath s).toList, Segment.IsName name
  last : ∃ directories stem, stem ≠ [] ∧
    Text.splitOn '/' (outputPath s).toList = directories ++ [stem ++ ".js".toList]
  path : FilePath.ofText (outputPath s) =
    ⟨false, (Text.splitOn '/' (outputPath s).toList).map String.ofList⟩

theorem isName_parentName : Segment.IsName parentName := by decide

theorem isName_append_js {stem : List Char} (hslash : '/' ∉ stem) :
    Segment.IsName (stem ++ ".js".toList) := by
  have hlast : (stem ++ ".js".toList).getLast? = some 's' := by simp
  have hother : ∀ other : List Char, other.getLast? ≠ some 's' → stem ++ ".js".toList ≠ other := by
    rintro _ hne rfl
    exact hne hlast
  refine ⟨hother [] (by decide), hother _ (by decide), hother _ (by decide), ?_⟩
  rw [List.mem_append]
  exact not_or.2 ⟨hslash, by decide⟩

theorem stem_of_isName {name : List Char} (h : Segment.IsName name) :
    stem name ≠ [] ∧ '/' ∉ stem name := by
  unfold stem
  split
  · next front extension hdot =>
    split
    · next hsource =>
      have hname := (splitLastDot?_eq_some_iff.1 hdot).1
      refine ⟨hsource.1, fun hslash => h.noSlash ?_⟩
      rw [hname]
      exact List.mem_append_left _ hslash
    · exact ⟨h.ne_nil, h.noSlash⟩
  · exact ⟨h.ne_nil, h.noSlash⟩

/-- The path of a module: directories, and a file that ends in `.js`. -/
theorem outputSegments_eq (s : Specifier) : ∃ directories stem,
    outputSegments s = directories ++ [stem ++ ".js".toList] ∧
      (∀ name ∈ directories, Segment.IsName name) ∧ stem ≠ [] ∧ '/' ∉ stem := by
  have hnames : ∀ name ∈ ((Text.splitOn '/' (plainPath s.text.toList)).filter fun p =>
      p ≠ [] && p ≠ Segment.current).map fun p => if p = Segment.parent then parentName else p,
      Segment.IsName name := by
    intro name hname
    obtain ⟨p, hp, rfl⟩ := List.mem_map.1 hname
    obtain ⟨hmem, hkept⟩ := List.mem_filter.1 hp
    obtain ⟨hne, hcurrent⟩ : p ≠ [] ∧ p ≠ Segment.current := by simpa using hkept
    split
    · exact isName_parentName
    · next hparent => exact ⟨hne, hcurrent, hparent, Text.notMem_of_mem_splitOn hmem⟩
  unfold outputSegments
  dsimp only
  split
  · exact ⟨[], "index".toList, rfl, by simp, by decide, by decide⟩
  · next last before hreverse =>
    have hall : ∀ name, name = last ∨ name ∈ before → Segment.IsName name := fun name hname =>
      hnames name (List.mem_reverse.1 (hreverse ▸ List.mem_cons.2 hname))
    obtain ⟨hne, hslash⟩ := stem_of_isName (hall last (.inl rfl))
    exact ⟨before.reverse, stem last, rfl,
      fun name hname => hall name (.inr (List.mem_reverse.1 hname)), hne, hslash⟩

theorem isName_of_mem_outputSegments {s : Specifier} :
    ∀ name ∈ outputSegments s, Segment.IsName name := by
  obtain ⟨directories, stem, heq, hdirectories, -, hslash⟩ := outputSegments_eq s
  rw [heq, List.forall_mem_append]
  exact ⟨hdirectories, by simpa using isName_append_js hslash⟩

theorem outputSegments_ne_nil (s : Specifier) : outputSegments s ≠ [] := by
  obtain ⟨directories, stem, heq, -⟩ := outputSegments_eq s
  simp [heq]

theorem splitOn_outputPath (s : Specifier) :
    Text.splitOn '/' (outputPath s).toList = outputSegments s := by
  rw [outputPath, String.toList_ofList]
  exact Text.splitOn_joinWith (outputSegments_ne_nil s) fun name hname =>
    (isName_of_mem_outputSegments name hname).noSlash

theorem outputPath_inj {s t : Specifier} :
    outputPath s = outputPath t ↔ outputSegments s = outputSegments t := by
  constructor
  · intro h
    rw [← splitOn_outputPath s, ← splitOn_outputPath t, h]
  · intro h
    rw [outputPath, outputPath, h]

/-- The path of a module is a clean path. -/
theorem outputPath_eq_text (s : Specifier) :
    outputPath s = FilePath.text ⟨false, (outputSegments s).map String.ofList⟩ := by
  refine String.toList_injective ?_
  rw [FilePath.toList_text, if_neg Bool.false_ne_true, if_neg (outputSegments_ne_nil s), outputPath,
    String.toList_ofList]

theorem head?_outputPath (s : Specifier) : (outputPath s).toList.head? ≠ some '/' := by
  have hnames : ∀ name ∈ outputSegments s, name ≠ [] ∧ '/' ∉ name := fun name hname =>
    ⟨(isName_of_mem_outputSegments name hname).ne_nil,
      (isName_of_mem_outputSegments name hname).noSlash⟩
  obtain ⟨c, hc, hslash⟩ := FilePath.head?_text false hnames
  rw [outputPath_eq_text, hc]
  simpa using hslash

theorem ofText_outputPath (s : Specifier) :
    FilePath.ofText (outputPath s) = ⟨false, (outputSegments s).map String.ofList⟩ := by
  rw [FilePath.ofText_eq, decide_eq_false (head?_outputPath s), splitOn_outputPath,
    Route.reduce_eq_of_isName isName_of_mem_outputSegments]
  rfl

theorem insideOutput (s : Specifier) : InsideOutput s where
  isName := by
    rw [splitOn_outputPath]
    exact isName_of_mem_outputSegments
  last := by
    obtain ⟨directories, stem, heq, -, hne, -⟩ := outputSegments_eq s
    exact ⟨directories, stem, hne, (splitOn_outputPath s).trans heq⟩
  path := by rw [ofText_outputPath, splitOn_outputPath]

end Emit

namespace Graph

open Emit (outputPath outputSegments)

/-! ## The modules of a graph -/

/-- What the paths of a graph come to. -/
structure AssignsPaths (g : Graph) : Prop where
  /-- The paths stand in the order of the modules. -/
  ok_iff : ∀ paths, g.outputPaths = .ok paths ↔
    Set.InjOn outputPath {s | s ∈ g.specifiers} ∧ paths = g.specifiers.map outputSegments
  /-- Each record is written to the path of its own module. -/
  outputs_iff : ∀ modules, Emit.outputs g = .ok modules ↔
    Set.InjOn outputPath {s | s ∈ g.specifiers} ∧
      modules = g.records.map fun r => ⟨r, outputPath r.specifier⟩
  /-- The first module whose path is taken is refused, with the one that took the path. -/
  error_iff : ∀ c, g.outputPaths = .error c ↔ ∃ before second after first,
    g.specifiers = before ++ second :: after ∧ Set.InjOn outputPath {s | s ∈ before} ∧
      first ∈ before ∧ outputPath first = outputPath second ∧
      c = ⟨outputSegments second, first, second⟩

variable {taken : Keyed (List (List Char)) Specifier} {specifiers : List Specifier}

theorem free_of_get? {s : Specifier} (h : taken.get? (outputSegments s) = none) :
    outputSegments s ∉ taken.keys := by
  intro hs
  simpa [h] using Keyed.get?_isSome_iff.2 hs

/-- Modules whose paths are free beside the one of another module were free before, and differ from
it. -/
theorem free_of_claimed {s : Specifier}
    (h : ∀ t ∈ specifiers, outputSegments t ∉ Keyed.keys ((outputSegments s, s) :: taken)) :
    outputSegments s ∉ specifiers.map outputSegments ∧
      ∀ t ∈ specifiers, outputSegments t ∉ taken.keys := by
  have hapart : ∀ t ∈ specifiers, outputSegments t ≠ outputSegments s ∧
      outputSegments t ∉ taken.keys := fun t ht => by
    simpa [Keyed.keys] using h t ht
  refine ⟨fun hmem => ?_, fun t ht => (hapart t ht).2⟩
  obtain ⟨t, ht, heq⟩ := List.mem_map.1 hmem
  exact (hapart t ht).1 heq

/-- Paths that are given out were free, and are apart. -/
theorem claimPaths_ok {paths : List (List (List Char))}
    (h : claimPaths taken specifiers = .ok paths) :
    (∀ s ∈ specifiers, outputSegments s ∉ taken.keys) ∧ (specifiers.map outputSegments).Nodup ∧
      paths = specifiers.map outputSegments := by
  induction specifiers generalizing taken paths with
  | nil =>
    cases h
    exact ⟨by simp, by simp, rfl⟩
  | cons s rest ih =>
    rw [claimPaths] at h
    split at h
    · cases h
    · next hnone =>
      cases hrest : claimPaths ((outputSegments s, s) :: taken) rest with
      | error c => simp [hrest, Except.map] at h
      | ok more =>
        obtain ⟨hother, hnodup, rfl⟩ := ih hrest
        obtain ⟨hnew, hfree⟩ := free_of_claimed hother
        obtain rfl : outputSegments s :: rest.map outputSegments = paths := by
          simpa [hrest, Except.map] using h
        exact ⟨List.forall_mem_cons.2 ⟨free_of_get? hnone, hfree⟩,
          List.nodup_cons.2 ⟨hnew, hnodup⟩, rfl⟩

/-- The module that is refused is the first one whose path is taken. -/
theorem claimPaths_error {c : Collision} (h : claimPaths taken specifiers = .error c) :
    ∃ before after, specifiers = before ++ c.second :: after ∧
      (∀ s ∈ before, outputSegments s ∉ taken.keys) ∧ (before.map outputSegments).Nodup ∧
      c.path = outputSegments c.second ∧
      (c.path, c.first) ∈ before.map (fun s => (outputSegments s, s)) ++ taken := by
  induction specifiers generalizing taken with
  | nil => cases h
  | cons s rest ih =>
    rw [claimPaths] at h
    split at h
    · next first hfirst =>
      cases h
      exact ⟨[], rest, rfl, by simp, by simp, rfl, by simpa using Keyed.mem_of_get? hfirst⟩
    · next hnone =>
      cases hrest : claimPaths ((outputSegments s, s) :: taken) rest with
      | ok more => simp [hrest, Except.map] at h
      | error other =>
        obtain rfl : other = c := by simpa [hrest, Except.map] using h
        obtain ⟨before, after, rfl, hother, hnodup, hpath, hmem⟩ := ih hrest
        obtain ⟨hnew, hfree⟩ := free_of_claimed hother
        refine ⟨s :: before, after, rfl, List.forall_mem_cons.2 ⟨free_of_get? hnone, hfree⟩,
          List.nodup_cons.2 ⟨hnew, hnodup⟩, hpath, ?_⟩
        simpa [or_left_comm, or_assoc] using hmem

/-- Modules have paths of their own exactly if none of the paths occurs twice. -/
theorem injOn_outputPath_iff (h : specifiers.Nodup) :
    Set.InjOn outputPath {s | s ∈ specifiers} ↔ (specifiers.map outputSegments).Nodup := by
  rw [List.nodup_map_iff_inj_on h]
  constructor
  · intro hinj s hs t ht heq
    exact hinj hs ht (Emit.outputPath_inj.2 heq)
  · intro hinj s hs t ht heq
    exact hinj s hs t ht (Emit.outputPath_inj.1 heq)

/-- A module in front of another one has another path if no path occurs twice. -/
theorem notMem_before {before after : List Specifier} {s : Specifier}
    (h : ((before ++ s :: after).map outputSegments).Nodup) :
    outputSegments s ∉ before.map outputSegments := by
  rw [List.map_append, List.map_cons] at h
  exact fun hmem => (List.nodup_append.1 h).2.2 _ hmem _ List.mem_cons_self rfl

/-- The first module whose path is taken is the only such module. -/
theorem before_unique {before before' after after' : List Specifier} {s s' : Specifier}
    (h : before ++ s :: after = before' ++ s' :: after')
    (hnodup : (before.map outputSegments).Nodup) (hnodup' : (before'.map outputSegments).Nodup)
    (htaken : outputSegments s ∈ before.map outputSegments)
    (htaken' : outputSegments s' ∈ before'.map outputSegments) : before = before' ∧ s = s' := by
  rcases List.append_eq_append_iff.1 h with ⟨more, hbefore, hmore⟩ | ⟨more, hbefore, hmore⟩
  · cases more with
    | nil => simp_all
    | cons t more =>
      obtain ⟨rfl, -⟩ := List.cons.inj hmore
      exact absurd htaken (notMem_before (hbefore ▸ hnodup'))
  · cases more with
    | nil => simp_all
    | cons t more =>
      obtain ⟨rfl, -⟩ := List.cons.inj hmore
      exact absurd htaken' (notMem_before (hbefore ▸ hnodup))

variable {g : Graph}

/-- A graph whose paths are refused has a first module whose path is taken. -/
theorem taken_of_outputPaths {c : Collision} (h : g.outputPaths = .error c) :
    ∃ before after, g.specifiers = before ++ c.second :: after ∧
      (before.map outputSegments).Nodup ∧ c.first ∈ before ∧
      outputSegments c.first = outputSegments c.second ∧ c.path = outputSegments c.second := by
  obtain ⟨before, after, hsplit, -, hnodup, hpath, hmem⟩ := claimPaths_error h
  rw [List.append_nil] at hmem
  obtain ⟨first, hfirst, heq⟩ := List.mem_map.1 hmem
  obtain ⟨hsame, rfl⟩ := Prod.mk.inj heq
  exact ⟨before, after, hsplit, hnodup, hfirst, hsame.trans hpath, hpath⟩

theorem outputPaths_eq_ok_iff (hg : g.specifiers.Nodup) (paths : List (List (List Char))) :
    g.outputPaths = .ok paths ↔
      Set.InjOn outputPath {s | s ∈ g.specifiers} ∧ paths = g.specifiers.map outputSegments := by
  rw [injOn_outputPath_iff hg]
  constructor
  · intro h
    exact (claimPaths_ok h).2
  · rintro ⟨hnodup, rfl⟩
    cases hresult : g.outputPaths with
    | ok paths => rw [(claimPaths_ok hresult).2.2, specifiers]
    | error c =>
      obtain ⟨before, after, hsplit, -, hfirst, hsame, -⟩ := taken_of_outputPaths hresult
      rw [hsplit] at hnodup
      exact absurd (List.mem_map.2 ⟨_, hfirst, hsame⟩) (notMem_before hnodup)

theorem outputPaths_eq_error_iff (hg : g.specifiers.Nodup) (c : Collision) :
    g.outputPaths = .error c ↔ ∃ before second after first,
      g.specifiers = before ++ second :: after ∧ Set.InjOn outputPath {s | s ∈ before} ∧
        first ∈ before ∧ outputPath first = outputPath second ∧
        c = ⟨outputSegments second, first, second⟩ := by
  have hpart : ∀ {before rest}, g.specifiers = before ++ rest → before.Nodup := by
    intro before rest hsplit
    rw [hsplit] at hg
    exact (List.nodup_append.1 hg).1
  constructor
  · intro h
    obtain ⟨before, after, hsplit, hnodup, hfirst, hsame, hpath⟩ := taken_of_outputPaths h
    exact ⟨before, c.second, after, c.first, hsplit,
      (injOn_outputPath_iff (hpart hsplit)).2 hnodup, hfirst, Emit.outputPath_inj.2 hsame,
      by rw [← hpath]⟩
  · rintro ⟨before, second, after, first, hsplit, hinj, hfirst, hsame, rfl⟩
    have hnodup := (injOn_outputPath_iff (hpart hsplit)).1 hinj
    have htaken : outputSegments second ∈ before.map outputSegments :=
      List.mem_map.2 ⟨first, hfirst, Emit.outputPath_inj.1 hsame⟩
    cases hresult : g.outputPaths with
    | ok paths =>
      have hall := (claimPaths_ok hresult).2.1
      rw [show g.records.map (·.specifier) = g.specifiers from rfl, hsplit] at hall
      exact absurd htaken (notMem_before hall)
    | error c =>
      obtain ⟨path, first', second'⟩ := c
      obtain ⟨before', after', hsplit', hnodup', hfirst', hsame', hpath'⟩ :=
        taken_of_outputPaths hresult
      obtain ⟨rfl, rfl⟩ := before_unique (hsplit.symm.trans hsplit') hnodup hnodup' htaken
        (List.mem_map.2 ⟨first', hfirst', hsame'⟩)
      have hone : first' = first := List.inj_on_of_nodup_map hnodup hfirst' hfirst
        (hsame'.trans (Emit.outputPath_inj.1 hsame).symm)
      obtain rfl : path = outputSegments second := hpath'
      rw [hone]

/-- Each record is written to the path of its module. -/
theorem outputs_of_outputPaths {paths : List (List (List Char))} (h : g.outputPaths = .ok paths) :
    Emit.outputs g = .ok (g.records.map fun r => ⟨r, outputPath r.specifier⟩) := by
  rw [Emit.outputs, h, (claimPaths_ok h).2.2, Except.map, List.map_map, List.zipWith_map_right]
  exact congrArg Except.ok List.zipWith_self

theorem outputs_eq_ok_iff (hg : g.specifiers.Nodup) (modules : List Emit.Written) :
    Emit.outputs g = .ok modules ↔ Set.InjOn outputPath {s | s ∈ g.specifiers} ∧
      modules = g.records.map fun r => ⟨r, outputPath r.specifier⟩ := by
  have hpaths := outputPaths_eq_ok_iff hg
  cases hresult : g.outputPaths with
  | ok paths =>
    rw [outputs_of_outputPaths hresult, Except.ok.injEq, and_iff_right ((hpaths _).1 hresult).1]
    exact eq_comm
  | error c =>
    refine iff_of_false (by simp [Emit.outputs, hresult, Except.map]) fun h => ?_
    rw [(hpaths _).2 ⟨h.1, rfl⟩] at hresult
    cases hresult

theorem assignsPaths (hg : g.specifiers.Nodup) : g.AssignsPaths :=
  ⟨outputPaths_eq_ok_iff hg, outputs_eq_ok_iff hg, outputPaths_eq_error_iff hg⟩

/-- The path of every module goes down along names, and in every graph that was put together from
records the modules have paths of their own in their order, or the first one whose path is taken is
refused. -/
theorem outputPaths_inside_and_apart :
    (∀ s, Emit.InsideOutput s) ∧
      ∀ entries records, (ofRecords entries records).AssignsPaths :=
  ⟨Emit.insideOutput, fun _ records => assignsPaths (nodup_insertAll records List.nodup_nil)⟩

end Graph

end ScriptLoader
