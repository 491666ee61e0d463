import Mathlib.Data.List.Nodup
import ScriptLoader.Proofs.Compile.Declared
import ScriptLoader.Proofs.Syntax.Names

/-!
# What stands in front and what it depends on

Linking decides for each declaration whether it is kept, lists its module as a dependency, and puts
statements in front that read its names from there. The three agree.

* `imports`, `reexported`: the names that a declaration imports, and what it exports from elsewhere.
* `Retained`: which imported names are kept.
* `keeps_keep`: what one item of an import list does to the names that are left.
* `adds_declaration`, `adds_declarations`: what one declaration adds to a plan, and all of them.
* `preface_agrees`: wherever linking returns, what the text in front declares agrees with the
  dependencies.
-/

namespace ScriptLoader.Compile.Linked

open Syntax Syntax.Parser

open scoped List

variable {R : Reader} {dialect : Dialect}

/-! ## Names that are imported -/

/-- A name that an import declaration declares. -/
structure Import where
  binding : Node
  /-- The property of its module that it stands for; without one it stands for the whole object. -/
  property : Option String
  typeOnly : Bool

def Import.name (i : Import) : String := i.binding.text

/-- What an item of an import list declares. -/
def imported? : Node → Option Import
  | .mk .importDefault _ _ _ [b] => some ⟨b, some "default", false⟩
  | .mk .importNamespace _ _ _ [b] => some ⟨b, none, false⟩
  | .mk .importName marks _ _ [name, b] => some ⟨b, some name.text, marks.contains .typeOnly⟩
  | _ => none

/-- The name is the variable with which elements of markup are made, or fragments. -/
def IsMarkupRoot (options : Options) (name : String) : Prop :=
  ∃ pragma ∈ [options.pragma, options.fragment],
    name = String.ofList (pragma.toList.takeWhile (· ≠ '.'))

/-- The variable of a binding is read or written, or the analysis of scopes does not know it. -/
def IsNeeded (R : Reader) (program : Program) (b : Node) : Prop :=
  ∀ rs, R.references program b = some rs → ∃ r ∈ rs, r.read = true ∨ r.write = true

/-- An imported name is kept if a value is imported and, in a typed dialect, it is read or written
or elements of markup are made with it. -/
def Retained (R : Reader) (dialect : Dialect) (program : Program) (options : Options)
    (i : Import) : Prop :=
  i.typeOnly = false ∧ (dialect.typed = true →
    IsNeeded R program i.binding ∨ dialect.markup = true ∧ IsMarkupRoot options i.name)

theorem retains_iff {program : Program} {options : Options} {b : Node} :
    retains R dialect program options b = true ↔ (dialect.typed = true →
      IsNeeded R program b ∨ dialect.markup = true ∧ IsMarkupRoot options b.text) := by
  unfold retains IsNeeded markupRoots
  cases R.references program b <;> cases dialect.typed <;> cases dialect.markup <;>
    simp [Reference.isUse, IsMarkupRoot, or_comm]

/-- The items of an import declaration. -/
def importItems : Node → List Node
  | .mk .importDecl _ _ _ [_, names, _] => if names.isAbsent then [] else names.children
  | _ => []

/-- The names that a statement imports. All that a declaration of types imports are types. -/
def imports (n : Node) : List Import :=
  ((importItems n).filterMap imported?).map fun i =>
    { i with typeOnly := i.typeOnly || n.has .typeOnly }

def Import.isKept (retained : Node → Bool) (i : Import) : Bool :=
  !i.typeOnly && retained i.binding

/-- The names that import items declare and that are kept. -/
def keptImports (retained : Node → Bool) (items : List Node) : List Import :=
  (items.filterMap imported?).filter (Import.isKept retained)

def Import.holder (dep : Specifier) (i : Import) : Holder := ⟨i.name, i.property, dep⟩

/-- The variables of the names that are left of an import list. -/
def Kept.holders (dep : Specifier) (k : Kept) : List Holder :=
  k.whole.toList.map (fun name => ⟨name, none, dep⟩) ++ k.fields.map (Field.holder dep)

/-! ## Names that are left -/

theorem holders_hoists (k : Kept) (dep : Specifier) :
    (k.hoists dep).flatMap Hoist.holders = k.holders dep := by
  obtain ⟨whole, fields⟩ := k
  cases whole <;> cases fields <;> simp [Kept.hoists, Kept.holders, Hoist.holders]

theorem holders_ne_nil_of_mem_hoists {k : Kept} {dep : Specifier} {a : Hoist}
    (ha : a ∈ k.hoists dep) : a.holders ≠ [] := by
  obtain ⟨whole, fields⟩ := k
  cases whole <;> cases fields <;> simp [Kept.hoists] at ha
  · simp [ha, Hoist.holders]
  · simp [ha, Hoist.holders]
  · rcases ha with rfl | rfl <;> simp [Hoist.holders]

/-- Not two items stand for a module as a whole. -/
def OneNamespace (items : List Node) : Prop :=
  items.Pairwise fun a b => ¬ (a.is .importNamespace = true ∧ b.is .importNamespace = true)

theorem keptImports_append (retained : Node → Bool) (items others : List Node) :
    keptImports retained (items ++ others) =
      keptImports retained items ++ keptImports retained others := by
  simp [keptImports]

theorem keptImports_singleton {retained : Node → Bool} {item : Node} {i : Import}
    (h : imported? item = some i) :
    keptImports retained [item] = if i.isKept retained then [i] else [] := by
  simp [keptImports, h, List.filter_cons]

theorem imported?_eq_none {item : Node}
    (hdefault : ∀ marks text span b, item ≠ .mk .importDefault marks text span [b])
    (hspace : ∀ marks text span b, item ≠ .mk .importNamespace marks text span [b])
    (hname : ∀ marks text span name b, item ≠ .mk .importName marks text span [name, b]) :
    imported? item = none := by
  unfold imported?
  split
  · exact (hdefault _ _ _ _ rfl).elim
  · exact (hspace _ _ _ _ rfl).elim
  · exact (hname _ _ _ _ _ rfl).elim
  · rfl

/-- What an item of an import list does: nothing, or it adds its variable to the fields, or it names
the module as a whole, in the place of an item that does so, too. -/
inductive Keeps (retained : Node → Bool) (k : Kept) (item : Node) : Kept → Prop
  | nothing (hnone : keptImports retained [item] = []) : Keeps retained k item k
  | field {i : Import} {f : Field} (hone : keptImports retained [item] = [i])
      (hf : ∀ dep, f.holder dep = i.holder dep) (hspace : item.is .importNamespace = false) :
      Keeps retained k item { k with fields := k.fields ++ [f] }
  | whole {i : Import} (hone : keptImports retained [item] = [i]) (hi : i.property = none)
      (hspace : item.is .importNamespace = true) :
      Keeps retained k item { k with whole := some i.name }

theorem keeps_keep (retained : Node → Bool) (k : Kept) (item : Node) :
    Keeps retained k item (keep retained k item) := by
  unfold keep
  split
  · next b =>
    split
    · next hb =>
      refine .field (i := ⟨b, some "default", false⟩) ?_ (fun _ => rfl) rfl
      rw [keptImports_singleton rfl]
      exact if_pos hb
    · next hb =>
      refine .nothing ?_
      rw [keptImports_singleton rfl]
      exact if_neg hb
  · next b =>
    split
    · next hb =>
      refine .whole (i := ⟨b, none, false⟩) ?_ rfl rfl
      rw [keptImports_singleton rfl]
      exact if_pos hb
    · next hb =>
      refine .nothing ?_
      rw [keptImports_singleton rfl]
      exact if_neg hb
  · next marks _ _ name b =>
    split
    · next hb =>
      refine .nothing ?_
      rw [keptImports_singleton rfl]
      refine if_neg fun hkept => ?_
      simp only [Import.isKept, Bool.and_eq_true, Bool.not_eq_true'] at hkept
      simp only [hkept, Bool.not_true, Bool.or_self, Bool.false_eq_true] at hb
    · next hb =>
      have hkept : marks.contains .typeOnly = false ∧ retained b = true := by simpa using hb
      refine .field (i := ⟨b, some name.text, marks.contains .typeOnly⟩) ?_ ?_ rfl
      · rw [keptImports_singleton rfl]
        exact if_pos (by simp only [Import.isKept, hkept, Bool.not_false, Bool.and_self])
      · intro dep
        split
        · next heq => simp [Field.holder, Import.holder, Import.name, heq]
        · rfl
  · next hdefault hspace hname =>
    exact .nothing (by simp [keptImports, imported?_eq_none hdefault hspace hname])

variable {retained : Node → Bool} {k l : Kept} {item : Node}

theorem Keeps.holders (h : Keeps retained k item l) (dep : Specifier)
    (hwhole : item.is .importNamespace = true → k.whole = none) :
    (l.holders dep).Perm
      (k.holders dep ++ (keptImports retained [item]).map (Import.holder dep)) := by
  cases h with
  | nothing hnone => simp [hnone]
  | field hone hf hspace => simp [hone, Kept.holders, hf]
  | whole hone hi hspace =>
    simpa [hone, Kept.holders, hwhole hspace, Import.holder, hi] using
      (List.perm_append_singleton _ _).symm

theorem Keeps.holders_subset (h : Keeps retained k item l) (dep : Specifier) :
    l.holders dep ⊆ k.holders dep ++ (keptImports retained [item]).map (Import.holder dep) := by
  cases h with
  | nothing hnone => simp
  | field hone hf hspace => simp [hone, Kept.holders, hf]
  | whole hone hi hspace =>
    intro b hb
    simp only [Kept.holders, hone, Import.holder, hi, Option.toList_some, List.map_cons,
      List.map_nil, List.cons_append, List.nil_append, List.mem_cons, List.mem_append] at hb ⊢
    tauto

theorem Keeps.whole_eq (h : Keeps retained k item l) (hitem : item.is .importNamespace = false) :
    l.whole = k.whole := by
  cases h with
  | nothing hnone => rfl
  | field hone hf hspace => rfl
  | whole hone hi hspace => cases hitem.symm.trans hspace

theorem Keeps.isEmpty_iff (h : Keeps retained k item l) :
    l.isEmpty = true ↔ k.isEmpty = true ∧ keptImports retained [item] = [] := by
  cases h with
  | nothing hnone => simp [hnone]
  | field hone hf hspace => simp [hone, Kept.isEmpty]
  | whole hone hi hspace => simp [hone, Kept.isEmpty]

/-- The variables of an import list are those of its names that are kept. -/
theorem holders_foldl_keep {items : List Node} (dep : Specifier) (h : OneNamespace items)
    (hk : ∀ i ∈ items, i.is .importNamespace = true → k.whole = none) :
    ((items.foldl (keep retained) k).holders dep).Perm
      (k.holders dep ++ (keptImports retained items).map (Import.holder dep)) := by
  induction items generalizing k with
  | nil => simp [keptImports]
  | cons item items ih =>
    obtain ⟨hfirst, hrest⟩ := List.pairwise_cons.1 h
    obtain ⟨hitem, hitems⟩ := List.forall_mem_cons.1 hk
    have hstep := keeps_keep retained k item
    have hwhole : ∀ i ∈ items, i.is .importNamespace = true →
        (keep retained k item).whole = none := by
      intro i hi hspace
      rw [hstep.whole_eq]
      · exact hitems i hi hspace
      · exact eq_false_of_ne_true fun h => hfirst i hi ⟨h, hspace⟩
    rw [List.foldl_cons]
    refine (ih hrest hwhole).trans ?_
    rw [← List.singleton_append, keptImports_append, List.map_append, ← List.append_assoc]
    exact (hstep.holders dep hitem).append_right _

/-- However many items stand for the module as a whole, an import list has no other variables. -/
theorem holders_foldl_keep_subset {items : List Node} (dep : Specifier) :
    (items.foldl (keep retained) k).holders dep ⊆
      k.holders dep ++ (keptImports retained items).map (Import.holder dep) := by
  induction items generalizing k with
  | nil => simp [keptImports]
  | cons item items ih =>
    rw [List.foldl_cons, ← List.singleton_append, keptImports_append, List.map_append,
      ← List.append_assoc]
    intro b hb
    rcases List.mem_append.1 (ih hb) with hb | hb
    · exact List.mem_append_left _ ((keeps_keep retained k item).holders_subset dep hb)
    · exact List.mem_append_right _ hb

/-- Nothing is left of an import list exactly if no name of it is kept. -/
theorem isEmpty_foldl_keep {items : List Node} :
    (items.foldl (keep retained) k).isEmpty = true ↔
      k.isEmpty = true ∧ keptImports retained items = [] := by
  induction items generalizing k with
  | nil => simp [keptImports]
  | cons item items ih =>
    have hitems := keptImports_append retained [item] items
    rw [List.singleton_append] at hitems
    rw [List.foldl_cons, ih, (keeps_keep retained k item).isEmpty_iff, hitems,
      List.append_eq_nil_iff, and_assoc]

/-! ## Declarations that are kept -/

/-- The names of a statement that are kept. -/
def retainedImports (retained : Node → Bool) (n : Node) : List Import :=
  (imports n).filter (Import.isKept retained)

/-- The source of a declaration that is kept: an import without names or with a name that is kept,
or an export of values from elsewhere. -/
def keptSource? (retained : Node → Bool) (n : Node) : Option String :=
  match n with
  | .mk .importDecl _ _ _ [raw, _, _] =>
    if n.has .typeOnly = false ∧ (importItems n = [] ∨ retainedImports retained n ≠ []) then
      some raw.text
    else none
  | .mk .exportNames _ _ _ [_, raw, _] =>
    if n.has .typeOnly = false ∧ raw.isAbsent = false then some raw.text else none
  | .mk .exportAll _ _ _ [raw, _, _] => if n.has .typeOnly = false then some raw.text else none
  | _ => none

/-- The properties that an export from elsewhere takes from its source; an export of everything
takes the whole object. -/
def reexported : Node → List (Option String)
  | .mk .exportNames _ _ _ [names, _, _] =>
    (names.children.filter fun i => !(i.has .typeOnly)).map fun i => some (i.child 0).text
  | .mk .exportAll _ _ _ [_, _, _] => [none]
  | _ => []

/-- The variable that holds a re-exported value: the one of the temporary with its number. -/
def reexportHolder (r : (Option String × Specifier) × Nat) : Holder :=
  ⟨temporary r.2, r.1.1, r.1.2⟩

/-- The variables that a declaration needs: those of its names that are kept, and one for each value
that it exports from elsewhere. -/
def holdersOf (retained : Node → Bool) (n : Node) (dep : Specifier) (first : Nat) : List Holder :=
  (retainedImports retained n).map (Import.holder dep) ++
    (((reexported n).map (·, dep)).zipIdx first).map reexportHolder

/-- What a statement adds to a plan: nothing, or the dependency of a declaration that is kept and
statements in front that read its names from there. -/
inductive Adds (retained : Node → Bool) (location : String) (n : Node) (p q : Plan) : Prop where
  | nothing (hsource : keptSource? retained n = none) (hhoists : q.hoists = p.hoists)
    (hreport : q.report = p.report) (htemporaries : q.temporaries = p.temporaries)
  | kept {raw : String} {dep : Specifier} {hoists : List Hoist}
    (hsource : keptSource? retained n = some raw) (hdep : Specifier.resolve raw location = .ok dep)
    (hreport : q.report = p.report.pushStatic dep) (hhoists : q.hoists = p.hoists ++ hoists)
    (hdeclares : ∀ a ∈ hoists, a.holders ≠ [])
    (hsubset : hoists.flatMap Hoist.holders ⊆ holdersOf retained n dep p.temporaries)
    (hholders : OneNamespace (importItems n) →
      (hoists.flatMap Hoist.holders).Perm (holdersOf retained n dep p.temporaries))
    (htemporaries : q.temporaries = p.temporaries + (reexported n).length)

theorem Adds.of_eq {retained : Node → Bool} {location raw : String} {n : Node} {p q : Plan}
    {dep : Specifier} {hoists : List Hoist} (hsource : keptSource? retained n = some raw)
    (hdep : Specifier.resolve raw location = .ok dep) (hreport : q.report = p.report.pushStatic dep)
    (hhoists : q.hoists = p.hoists ++ hoists) (hdeclares : ∀ a ∈ hoists, a.holders ≠ [])
    (hholders : hoists.flatMap Hoist.holders = holdersOf retained n dep p.temporaries)
    (htemporaries : q.temporaries = p.temporaries + (reexported n).length) :
    Adds retained location n p q :=
  .kept hsource hdep hreport hhoists hdeclares (fun _ hb => hholders ▸ hb)
    (fun _ => .of_eq hholders) htemporaries

theorem retainedImports_eq {retained : Node → Bool} {n : Node} (h : n.has .typeOnly = false) :
    retainedImports retained n = keptImports retained (importItems n) := by
  simp [retainedImports, imports, keptImports, h]

theorem adds_import {source : List Char} {location : String} {retained : Node → Bool}
    {p q : Plan} {marks : List Mark} {text : String} {span : Span} {raw names attributes n : Node}
    (hn : n = .mk .importDecl marks text span [raw, names, attributes])
    (h : declaration source location retained p n = .ok q) : Adds retained location n p q := by
  have hsource : keptSource? retained n =
      if n.has .typeOnly = false ∧ (importItems n = [] ∨ retainedImports retained n ≠ []) then
        some raw.text
      else none := by
    rw [hn, keptSource?]
  have hitems : importItems n = if names.isAbsent then [] else names.children := by
    rw [hn, importItems]
  have hreexported : reexported n = [] := by
    rw [hn]
    rfl
  rw [hn] at h
  simp only [declaration] at h
  split at h
  · next htypes =>
    have ht : n.has .typeOnly = true := by rwa [hn]
    cases h
    exact .nothing (by simp [hsource, ht]) rfl rfl rfl
  · next htypes =>
    have ht : n.has .typeOnly = false := by
      rw [hn]
      exact eq_false_of_ne_true htypes
    split at h
    · next habsent =>
      rw [if_pos habsent] at hitems
      split at h
      · cases h
      · next dep hdep =>
        cases h
        have hnone : p.hoists = p.hoists ++ [] := (List.append_nil _).symm
        refine .of_eq (by simp [hsource, ht, hitems]) (dependency_ok_iff.1 hdep) rfl hnone (by simp)
          ?_ (by rw [hreexported]; rfl)
        simp [holdersOf, retainedImports, imports, hitems, hreexported]
    · next habsent =>
      rw [if_neg habsent] at hitems
      have hretained : retainedImports retained n = keptImports retained names.children := by
        rw [retainedImports_eq ht, hitems]
      simp only [Bool.and_eq_true, isEmpty_foldl_keep, Bool.not_eq_true',
        List.isEmpty_eq_false_iff] at h
      split at h
      · next hempty =>
        cases h
        exact .nothing (by simp [hsource, hitems, hretained, hempty]) rfl rfl rfl
      · next hempty =>
        have hkept : importItems n = [] ∨ retainedImports retained n ≠ [] := by
          rw [hitems, hretained]
          tauto
        split at h
        · cases h
        · next dep hdep =>
          cases h
          have hneeded : holdersOf retained n dep p.temporaries =
              (keptImports retained names.children).map (Import.holder dep) := by
            simp [holdersOf, hretained, hreexported]
          refine .kept (by rw [hsource, if_pos ⟨ht, hkept⟩]) (dependency_ok_iff.1 hdep) rfl rfl
            (fun a ha => holders_ne_nil_of_mem_hoists ha) ?_ (fun hone => ?_)
            (by rw [hreexported]; rfl)
          · rw [hneeded, holders_hoists]
            exact holders_foldl_keep_subset dep
          · rw [hitems] at hone
            rw [hneeded, holders_hoists]
            exact holders_foldl_keep dep hone fun _ _ _ => rfl

/-- The fields of the temporaries hold what is re-exported. -/
theorem holders_reexports (first : Nat) (names raw attributes : Node) (marks : List Mark)
    (text : String) (span : Span) (dep : Specifier) :
    ((reexports first names.children).map (·.1)).map (Field.holder dep) =
      (((reexported (.mk .exportNames marks text span [names, raw, attributes])).map
        (·, dep)).zipIdx first).map reexportHolder := by
  have hshift := List.zipIdx_eq_map_add
    (l := names.children.filter fun i => !(i.has .typeOnly)) (i := first)
  simp only [reexports, reexported, List.zipIdx_map, List.map_map, hshift]
  rfl

theorem adds_exportNames {source : List Char} {location : String} {retained : Node → Bool}
    {p q : Plan} {marks : List Mark} {text : String} {span : Span} {raw names attributes : Node}
    (h : declaration source location retained p
      (.mk .exportNames marks text span [names, raw, attributes]) = .ok q) :
    Adds retained location (.mk .exportNames marks text span [names, raw, attributes]) p q := by
  simp only [declaration] at h
  split at h
  · next habsent =>
    cases h
    exact .nothing (if_neg fun hkept => absurd habsent (by simp [hkept.2])) rfl rfl rfl
  · next habsent =>
    split at h
    · next ht =>
      cases h
      exact .nothing (if_neg fun hkept => Bool.false_ne_true (hkept.1.symm.trans ht)) rfl rfl rfl
    · next ht =>
      split at h
      · cases h
      · next dep hdep =>
        cases h
        refine .of_eq (if_pos ⟨eq_false_of_ne_true ht, eq_false_of_ne_true habsent⟩)
          (dependency_ok_iff.1 hdep) rfl rfl (fun a ha => ?_) ?_ ?_
        · split at ha
          · cases ha
          · next hnone =>
            simpa [List.mem_singleton.1 ha, Hoist.holders] using hnone
        · rw [holdersOf, ← holders_reexports]
          change _ = [] ++ _
          split
          · next hnone =>
            simp [List.isEmpty_iff.1 hnone]
          · simp [Hoist.holders]
        · simp [reexports, reexported, Plan.withHoists, Plan.withStatic]

theorem adds_exportAll {source : List Char} {location : String} {retained : Node → Bool}
    {p q : Plan} {marks : List Mark} {text : String} {span : Span} {raw exported attributes : Node}
    (h : declaration source location retained p
      (.mk .exportAll marks text span [raw, exported, attributes]) = .ok q) :
    Adds retained location (.mk .exportAll marks text span [raw, exported, attributes]) p q := by
  simp only [declaration] at h
  split at h
  · next ht =>
    cases h
    exact .nothing (if_neg fun hkept => Bool.false_ne_true (hkept.symm.trans ht)) rfl rfl rfl
  · next ht =>
    split at h
    · cases h
    · split at h
      · cases h
      · next dep hdep =>
        cases h
        refine .of_eq (if_pos (eq_false_of_ne_true ht)) (dependency_ok_iff.1 hdep) rfl rfl
          (fun a ha => ?_) ?_ rfl
        · simp [List.mem_singleton.1 ha, Hoist.holders]
        · simp [holdersOf, retainedImports, imports, importItems, reexported, Hoist.holders,
            reexportHolder]

/-- What one statement adds to a plan. -/
theorem adds_declaration {source : List Char} {location : String} {retained : Node → Bool}
    {p q : Plan} {n : Node} (h : declaration source location retained p n = .ok q) :
    Adds retained location n p q := by
  have hplan := h
  unfold declaration at h
  split at h
  · exact adds_import rfl hplan
  · exact adds_exportNames hplan
  · exact adds_exportAll hplan
  · next himport hexport hall =>
    cases h
    refine .nothing ?_ rfl rfl rfl
    unfold keptSource?
    split
    · exact (himport _ _ _ _ _ _ rfl).elim
    · exact (hexport _ _ _ _ _ _ rfl).elim
    · exact (hall _ _ _ _ _ _ rfl).elim
    · rfl

/-! ## Statement by statement -/

/-- The declarations that are kept, in their order, with the modules that they name. -/
structure Resolves (retained : Node → Bool) (location : String) (ns : List Node)
    (ds : List (Node × Specifier)) : Prop where
  nodes : ds.map (·.1) = ns.filter fun n => (keptSource? retained n).isSome
  deps : ∀ d ∈ ds, ∃ raw, keptSource? retained d.1 = some raw ∧
    Specifier.resolve raw location = .ok d.2

/-- The variables that hold imported names, each from the module of its own declaration. -/
def importHolders (retained : Node → Bool) (ds : List (Node × Specifier)) : List Holder :=
  ds.flatMap fun d => (retainedImports retained d.1).map (Import.holder d.2)

/-- The variables that hold re-exported values, which are numbered through all declarations. -/
def reexportHolders (first : Nat) (ds : List (Node × Specifier)) : List Holder :=
  ((ds.flatMap fun d => (reexported d.1).map (·, d.2)).zipIdx first).map reexportHolder

theorem toList_temporary (n : Nat) :
    (temporary n).toList = "__tsb_reexport_".toList ++ Nat.toDigits 10 n := by
  change ("__tsb_reexport_" ++ n.repr).toList = _
  rw [String.toList_append, Nat.toList_repr]

theorem temporary_injective {m n : Nat} (h : temporary m = temporary n) : m = n := by
  have hdigits : Nat.toDigits 10 m = Nat.toDigits 10 n := by
    have htexts := congrArg String.toList h
    rwa [toList_temporary, toList_temporary, List.append_cancel_left_eq] at htexts
  rw [← Nat.ofDigitChars_ten_toDigits (n := m), hdigits, Nat.ofDigitChars_ten_toDigits]

/-- Every value that is re-exported has a variable of its own. -/
theorem nodup_reexportHolders (first : Nat) (ds : List (Node × Specifier)) :
    ((reexportHolders first ds).map (·.name)).Nodup := by
  have hnames : (reexportHolders first ds).map (·.name) =
      (List.range' first (ds.flatMap fun d => (reexported d.1).map (·, d.2)).length).map
        temporary := by
    rw [← List.zipIdx_map_snd, reexportHolders, List.map_map, List.map_map]
    rfl
  rw [hnames]
  exact List.Nodup.map (fun _ _ => temporary_injective) List.nodup_range'

theorem reexportHolders_cons (first : Nat) (n : Node) (dep : Specifier)
    (ds : List (Node × Specifier)) :
    reexportHolders first ((n, dep) :: ds) =
      (((reexported n).map (·, dep)).zipIdx first).map reexportHolder ++
        reexportHolders (first + (reexported n).length) ds := by
  simp [reexportHolders, List.zipIdx_append]

/-- The variables that the declarations need. -/
def allHolders (retained : Node → Bool) (first : Nat) (ds : List (Node × Specifier)) :
    List Holder :=
  importHolders retained ds ++ reexportHolders first ds

theorem allHolders_cons (retained : Node → Bool) (first : Nat) (n : Node) (dep : Specifier)
    (ds : List (Node × Specifier)) :
    (holdersOf retained n dep first ++
      allHolders retained (first + (reexported n).length) ds).Perm
        (allHolders retained first ((n, dep) :: ds)) := by
  have himports : importHolders retained ((n, dep) :: ds) =
      (retainedImports retained n).map (Import.holder dep) ++ importHolders retained ds := by
    rw [importHolders, List.flatMap_cons]
    rfl
  rw [allHolders, allHolders, himports, reexportHolders_cons, holdersOf, List.append_assoc,
    List.append_assoc]
  exact (List.perm_append_comm_assoc _ _ _).append_left _

/-- What the declarations add to a plan. -/
theorem adds_declarations {source : List Char} {location : String} {retained : Node → Bool}
    {p q : Plan} {ns : List Node} (h : declarations source location retained p ns = .ok q) :
    ∃ ds hoists, Resolves retained location ns ds ∧
      q.report = (ds.map (·.2)).foldl Report.pushStatic p.report ∧
      q.hoists = p.hoists ++ hoists ∧ (∀ a ∈ hoists, a.holders ≠ []) ∧
      hoists.flatMap Hoist.holders ⊆ allHolders retained p.temporaries ds ∧
      ((∀ n ∈ ns, OneNamespace (importItems n)) →
        (hoists.flatMap Hoist.holders).Perm (allHolders retained p.temporaries ds)) := by
  induction ns generalizing p with
  | nil =>
    cases h
    exact ⟨[], [], ⟨rfl, by simp⟩, rfl, by simp, by simp, by simp, fun _ => .refl _⟩
  | cons n ns ih =>
    obtain ⟨r, hr, hrest⟩ := declarations_cons h
    obtain ⟨ds, hoists, ⟨hnodes, hdeps⟩, hreports, hhoists, hdeclares, hsubset, hholders⟩ :=
      ih hrest
    cases adds_declaration hr with
    | nothing hsource hh hreport htemporaries =>
      rw [hh] at hhoists
      rw [hreport] at hreports
      rw [htemporaries] at hsubset hholders
      exact ⟨ds, hoists, ⟨by simpa [hsource] using hnodes, hdeps⟩, hreports, hhoists, hdeclares,
        hsubset, fun hone => hholders fun n hn => hone n (List.mem_cons_of_mem _ hn)⟩
    | @kept raw dep added hsource hdep hreport hh hnew hfrom hadded htemporaries =>
      rw [hh, List.append_assoc] at hhoists
      rw [hreport] at hreports
      rw [htemporaries] at hsubset hholders
      have hall := allHolders_cons retained p.temporaries n dep ds
      refine ⟨(n, dep) :: ds, added ++ hoists, ⟨by simp [hsource, hnodes], ?_⟩, hreports, hhoists,
        ?_, ?_, fun hone => ?_⟩
      · exact List.forall_mem_cons.2 ⟨⟨raw, hsource, hdep⟩, hdeps⟩
      · intro a ha
        rcases List.mem_append.1 ha with ha | ha
        · exact hnew a ha
        · exact hdeclares a ha
      · rw [List.flatMap_append]
        intro b hb
        rcases List.mem_append.1 hb with hb | hb
        · exact hall.mem_iff.1 (List.mem_append_left _ (hfrom hb))
        · exact hall.mem_iff.1 (List.mem_append_right _ (hsubset hb))
      · obtain ⟨hn, hns⟩ := List.forall_mem_cons.1 hone
        rw [List.flatMap_append]
        exact ((hadded hn).append (hholders hns)).trans hall

theorem dep_of_mem_holders {retained : Node → Bool} {first : Nat} {ds : List (Node × Specifier)}
    {b : Holder} (hb : b ∈ allHolders retained first ds) :
    b.dep ∈ ds.map (·.2) := by
  rcases List.mem_append.1 hb with hb | hb
  · obtain ⟨d, hd, hb⟩ := List.mem_flatMap.1 hb
    obtain ⟨i, -, rfl⟩ := List.mem_map.1 hb
    exact List.mem_map_of_mem hd
  · obtain ⟨⟨r, n⟩, hr, rfl⟩ := List.mem_map.1 hb
    obtain ⟨d, hd, hr⟩ := List.mem_flatMap.1 (List.fst_mem_of_mem_zipIdx hr)
    obtain ⟨property, -, rfl⟩ := List.mem_map.1 hr
    exact List.mem_map_of_mem hd

theorem foldl_pushStatic (deps : List Specifier) (report : Report) :
    deps.foldl Report.pushStatic report = { report with
      static := deps.foldl (fun list dep => Report.push dep list) report.static } := by
  induction deps generalizing report with
  | nil => rfl
  | cons dep deps ih => exact ih (report.pushStatic dep)

/-- Dependencies of calls change nothing else in a report. -/
theorem foldl_pushDynamic (deps : List Specifier) (report : Report) :
    deps.foldl Report.pushDynamic report = { report with
      dynamic := deps.foldl (fun list dep => Report.push dep list) report.dynamic } := by
  induction deps generalizing report with
  | nil => rfl
  | cons dep deps ih => exact ih (report.pushDynamic dep)

/-- Items that are pushed one after the other are listed once, where they first occur. -/
theorem foldl_push (deps list : List Specifier) :
    deps.foldl (fun list dep => Report.push dep list) list =
      list ++ (deps.filter fun dep => dep ∉ list).eraseDups := by
  induction deps generalizing list with
  | nil => simp
  | cons dep deps ih =>
    rw [List.foldl_cons, ih, Report.push]
    by_cases hdep : dep ∈ list
    · simp [hdep]
    · simp only [List.contains_iff_mem, hdep, if_false, List.append_assoc, List.filter_cons,
        not_false_eq_true, decide_true, if_true, List.eraseDups_cons, List.filter_filter,
        List.singleton_append]
      congr 3
      refine List.filter_congr fun a _ => ?_
      simp [Bool.and_comm, beq_eq_decide]

end ScriptLoader.Compile.Linked

namespace ScriptLoader.Syntax.Grammar

open Compile.Linked Syntax.Parser

/-! ## Import lists -/

theorem importItems_of_kind {kind : Kind} {marks : List Mark} {text : String} {span : Span}
    {cs : List Node} (h : kind ≠ .importDecl) : importItems (.mk kind marks text span cs) = [] := by
  unfold importItems
  split <;> simp_all

/-- The items are those of the children, whatever else a declaration has. -/
theorem importItems_congr (kind : Kind) (marks marks' : List Mark) (text text' : String)
    (span span' : Span) (cs : List Node) :
    importItems (.mk kind marks' text' span' cs) = importItems (.mk kind marks text span cs) := by
  unfold importItems
  split <;> simp_all

variable {Q : List Node → Prop}

theorem items_importRest (hclause : importClause.Reaches Q) (start : Nat) (phase : String)
    (marks : List Mark) :
    (do
      let namesStart ← position
      let items ← importClause
      let names ← Parser.finish namesStart .names items
      let (source, attributes) ← fromClause
      endStatement
      Parser.finish start .importDecl [source, names, attributes] phase marks :
        Parser Node).Reaches fun n => Q (importItems n) := by
  refine Keeps.position.reaches fun namesStart _ => hclause.bind fun items hitems => ?_
  refine Yields.bind (P := fun names => names.isAbsent = false ∧ names.children = items)
    (.finish fun _ => ⟨rfl, rfl⟩) fun names ⟨hnames, hchildren⟩ =>
    .seq fun ⟨source, attributes⟩ => .seq fun _ => .finish fun span => ?_
  simpa [importItems, hnames, hchildren] using hitems

theorem items_importDeclaration (hnil : Q []) (hclause : importClause.Reaches Q) :
    importDeclaration.Yields fun n => Q (importItems n) := by
  refine .seq fun start => .behindWord fun _ => Keeps.cursor.reaches fun c _ => ?_
  split
  · exact Yields.reaches (.seq fun source => .seq fun attributes => .seq fun _ =>
      .finish fun span => hnil)
  · -- What is read behind the word for types or a phase, whether or not there is one.
    have hrest : ∀ typeOnly phase, (do
        let n ← next
        if (← setting).dialect.typed && (← atVariable) && punctAt n = "=" then
          let name ← variable_ .binding
          importEqualsRest start name typeOnly
        else
          let namesStart ← position
          let items ← importClause
          let names ← Parser.finish namesStart .names items
          let (source, attributes) ← fromClause
          endStatement
          Parser.finish start .importDecl [source, names, attributes] phase (typeMark typeOnly) :
          Parser Node).Reaches fun n => Q (importItems n) := by
      refine fun typeOnly phase => keeps_next.reaches fun n _ => Keeps.setting.reaches fun s _ =>
        keeps_atVariable.reaches fun found _ => ?_
      split
      · unfold importEqualsRest
        refine Yields.reaches (.seq fun name => ?_)
        repeat' first
          | exact .finish fun _ => by rwa [importItems_of_kind (by decide)]
          | refine .seq fun _ => ?_
          | split
      · exact items_importRest hclause start phase _
    refine keeps_atTypeWord.reaches fun typeOnly _ => ?_
    cases typeOnly with
    | true => exact Keeps.advance.reaches fun _ _ => hrest true ""
    | false =>
      refine keeps_phaseAt.reaches fun phase _ => ?_
      dsimp only
      split
      · exact Keeps.advance.reaches fun _ _ => hrest false phase
      · exact hrest false phase

/-- What holds of all that is read between the words of an import holds of the items of every
statement; other statements have none. -/
theorem clausal_importItems (hnil : Q []) (hclause : importClause.Reaches Q) :
    Clausal fun n => Q (importItems n) where
  of_kind h := by rwa [importItems_of_kind h.1]
  congr {kind marks marks' text text' span span' cs} h := by
    rwa [importItems_congr kind marks marks' text text' span span' cs]
  importDeclaration := items_importDeclaration hnil hclause
  exportList start typeOnly := by
    unfold exportList
    repeat' first
      | exact .finish fun _ => by rwa [importItems_of_kind (by decide)]
      | exact .refuse
      | refine .seq fun _ => ?_
      | split
  exportStar start typeOnly := by
    unfold exportStar
    repeat' first
      | exact .finish fun _ => by rwa [importItems_of_kind (by decide)]
      | refine .seq fun _ => ?_
      | split

/-! ## One namespace at most -/

theorem oneNamespace_of_names {items : List Node}
    (h : ∀ i ∈ items, i.is .importNamespace = false) : OneNamespace items :=
  List.pairwise_of_forall_mem_list fun a ha _ _ hboth =>
    Bool.false_ne_true ((h a ha).symm.trans hboth.1)

theorem name_importItem : importItem.Yields fun i => i.is .importNamespace = false := by
  refine .seq fun start => .seq fun names => ?_
  obtain ⟨typeOnly, imported, local_⟩ := names
  refine .seq fun s => ?_
  dsimp only
  repeat' first
    | exact .finish fun _ => rfl
    | exact .refuse
    | refine .seq fun _ => ?_
    | split

theorem oneNamespace_importClause : importClause.Yields OneNamespace := by
  have hnamed : (do
      let start ← position
      if ← skip "*" then
        expectWord "as"
        let b ← variable_ .binding
        Parser.finish start .importNamespace [b]
      else
        expect "\x7b"
        let items ← commaUntil "\x7d" importItem
        Parser.finish start .names items : Parser Node).Yields
        fun n => OneNamespace (if n.is .names then n.children else [n]) := by
    refine .seq fun start => .seq fun found => ?_
    split
    · exact .seq fun _ => .seq fun b => .finish fun span => List.pairwise_singleton _ _
    · exact .seq fun _ => (Yields.commaUntil name_importItem).bind fun items hitems =>
        .finish fun span => oneNamespace_of_names hitems
  refine .seq fun c => ?_
  split
  · exact hnamed.bind fun n hn => .pure hn
  · refine .seq fun start => .seq fun b => ?_
    refine Yields.bind (P := fun d => d.is .importNamespace = false) (.finish fun _ => rfl)
      fun d hd => .seq fun found => ?_
    split
    · refine hnamed.bind fun n hn => .pure (List.pairwise_cons.2 ⟨fun i _ hboth => ?_, hn⟩)
      exact Bool.false_ne_true (hd.symm.trans hboth.1)
    · exact .pure (List.pairwise_singleton _ _)

theorem clausal_oneNamespace : Clausal fun n => OneNamespace (importItems n) :=
  clausal_importItems List.Pairwise.nil oneNamespace_importClause.reaches

end ScriptLoader.Syntax.Grammar

namespace ScriptLoader.Compile.Linked

open Syntax

/-! ## Linking -/

theorem mem_retainedImports {program : Program} {options : Options} {n : Node} {i : Import} :
    i ∈ retainedImports (retains R dialect program options) n ↔
      i ∈ imports n ∧ Retained R dialect program options i := by
  simp [retainedImports, Import.isKept, Retained, retains_iff, Import.name]

/-- The variables that the text in front declares agree with the dependencies, which the
declarations `ds` of the source name. -/
structure Agrees (R : Reader) (dialect : Dialect) (program : Program) (location : String)
    (options : Options) (report : Report) (text : List Char) (vars : List Holder)
    (ds : List (Node × Specifier)) : Prop where
  /-- The declarations are those that are kept. -/
  resolves : Resolves (retains R dialect program options) location program.statements ds
  /-- Their modules are the dependencies, each listed where it first occurs. -/
  static : report.static = (ds.map (·.2)).eraseDups
  /-- The text declares the variables, each of them once. -/
  declares : Declares text vars
  /-- They are the names that are kept and one for each value that is re-exported, each of them once
  and from the module of its own declaration. -/
  holders : vars.Perm
    (importHolders (retains R dialect program options) ds ++ reexportHolders 0 ds)
  /-- No variable holds two re-exported values. -/
  numbered : ((reexportHolders 0 ds).map (·.name)).Nodup
  /-- Nothing in front reads from another module. -/
  reads : ∀ b ∈ vars, b.dep ∈ report.static
  /-- The names that are kept are values that are needed, in a dialect without types all values. -/
  retained : ∀ n i, i ∈ retainedImports (retains R dialect program options) n ↔
    i ∈ imports n ∧ Retained R dialect program options i

theorem agrees_of_plan {program : Program} {source : List Char} {location : String}
    {options : Options} {p : Plan} (hone : ∀ n ∈ program.statements, OneNamespace (importItems n))
    (hp : plan R dialect program source location options = .ok p) :
    ∃ ds, Agrees R dialect program location options p.report (preface p.hoists)
      (p.hoists.flatMap Hoist.holders) ds := by
  obtain ⟨q, calls, hd, -, rfl⟩ := plan_ok hp
  obtain ⟨ds, hoists, hresolves, hreports, hhoists, hdeclares, -, hholders⟩ := adds_declarations hd
  have hfront : q.hoists = hoists := by simpa using hhoists
  have hdeps : (calls.foldl Report.pushDynamic q.report).static = (ds.map (·.2)).eraseDups := by
    rw [foldl_pushDynamic, hreports, foldl_pushStatic, foldl_push]
    simp
  dsimp only
  rw [hfront]
  refine ⟨ds, hresolves, hdeps, declares_preface hdeclares, hholders hone,
    nodup_reexportHolders 0 ds, fun b hb => ?_, fun n i => mem_retainedImports⟩
  rw [hdeps]
  exact List.mem_eraseDups.2 (dep_of_mem_holders ((hholders hone).mem_iff.1 hb))

/-- Wherever linking returns, the text begins with declarations that agree with the dependencies.
Behind them is the source with the edits of the plan. -/
theorem preface_agrees {source location : String} {options : Options} {program : Program}
    {linked : Linked} (hread : R.read dialect source.toList = .ok program)
    (hone : ∀ n ∈ program.statements, OneNamespace (importItems n))
    (h : ofSource R source location dialect options = .ok linked) :
    ∃ p front rest vars ds, plan R dialect program source.toList location options = .ok p ∧
      splice source.toList p.edits = .ok rest ∧ linked.code.toList = front ++ rest ∧
      Agrees R dialect program location options linked.report front vars ds := by
  obtain ⟨program', p, rest, hread', hp, hsplice, hcode, hreport⟩ := parts_of_ofSource h
  cases hread.symm.trans hread'
  obtain ⟨ds, hagrees⟩ := agrees_of_plan hone hp
  rw [← hreport] at hagrees
  exact ⟨p, _, rest, _, ds, hp, hsplice, hcode, hagrees⟩

/-- A default with a namespace, a list with a type, an export from a module that is also imported,
and the function that makes elements. -/
def assorted : String :=
  "import d, * as ns from './a';\nimport \x7b b as c, type T \x7d from './b';\n" ++
  "export \x7b x as y \x7d from './b';\nimport \x7b h \x7d from './h';\nd(ns, c);\n"

theorem assorted_preface_agrees :
    ∃ linked program front rest vars ds,
      Reader.own.read (Dialect.ofLocation "/m.tsx".toList) assorted.toList = .ok program ∧
      (∀ n ∈ program.statements, OneNamespace (importItems n)) ∧
      ofSource .own assorted "/m.tsx" (Dialect.ofLocation "/m.tsx".toList) { pragma := "h" } =
        .ok linked ∧
      linked.code.toList = front ++ rest ∧
      Agrees .own (Dialect.ofLocation "/m.tsx".toList) program "/m.tsx" { pragma := "h" }
        linked.report front vars ds ∧
      linked.report.static.map (·.text) = ["/a", "/b", "/h"] := by
  obtain ⟨program, p, linked, hread, -, -, hp, hlinked, hcheck⟩ :=
    @links_of_check (Dialect.ofLocation "/m.tsx".toList) assorted "/m.tsx" { pragma := "h" }
      (fun _ p => p.report.static.map (·.text) = ["/a", "/b", "/h"]) (by decide +kernel)
  have hone : ∀ n ∈ program.statements, OneNamespace (importItems n) := by
    rw [Reader.own_read] at hread
    exact Grammar.clausal_oneNamespace.of_read (fun _ _ => .nil) hread
  obtain ⟨p', front, rest, vars, ds, hp', -, hcode, hagrees⟩ :=
    preface_agrees hread hone hlinked
  obtain ⟨program'', p'', -, hread'', hp'', -, -, hreport⟩ := parts_of_ofSource hlinked
  cases hread.symm.trans hread''
  cases hp.symm.trans hp''
  refine ⟨linked, program, front, rest, vars, ds, hread, hone, hlinked, hcode, hagrees, ?_⟩
  rw [hreport]
  exact of_decide_eq_true hcheck

end ScriptLoader.Compile.Linked
