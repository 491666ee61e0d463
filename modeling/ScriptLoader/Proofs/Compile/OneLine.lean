import ScriptLoader.Proofs.Compile.Imports

/-!
# What is put in stands on one line

No text that linking puts into a source has a line feed, apart from those that it leaves of
declarations. Literals escape theirs, and variables are spelled as names, as they are in the import
lists of the source.

* `noFeed_jsonQuoted`, `noFeed_key`, `noFeed_temporary`: the parts of such texts.
* `lineFeeds_exportClause`, `lineFeeds_preface`: export lists, and what stands in front.
* `Grammar.clausal_named`: the variables of import lists are spelled as names.
* `noFeed_holders`: so are those in front.
-/

namespace ScriptLoader.Compile.Linked

open Syntax

/-! ## Texts without line feeds -/

@[simp] theorem lineFeeds_nil : lineFeeds [] = 0 := rfl

theorem lineFeeds_append (cs ds : List Char) :
    lineFeeds (cs ++ ds) = lineFeeds cs + lineFeeds ds := List.count_append

theorem lineFeeds_eq_zero {cs : List Char} : lineFeeds cs = 0 ↔ '\n' ∉ cs := List.count_eq_zero

theorem noFeed_jsonEscape (c : Char) : '\n' ∉ Text.jsonEscape c := by
  have hdigits : ∀ n < 32, '\n' ∉ ['\\', 'u'] ++ Text.hexDigits 4 n := by decide +kernel
  unfold Text.jsonEscape
  split_ifs with _ _ hfeed _ _ _ _ hcontrol
  case neg => simpa using Ne.symm hfeed
  all_goals first
    | decide
    | exact hdigits _ hcontrol

theorem noFeed_jsonQuoted (s : String) : '\n' ∉ (Text.jsonQuoted s).toList := by
  simp only [Text.jsonQuoted, String.toList_ofList, Text.jsonQuote, List.mem_append, List.mem_cons,
    List.mem_flatMap, List.not_mem_nil, or_false, not_or, not_exists, not_and]
  exact ⟨⟨by decide, fun c _ => noFeed_jsonEscape c⟩, by decide⟩

theorem noFeed_of_classes (start part : Char → Bool) {c : Char} {cs : List Char}
    (hstart : start '\n' = false) (hpart : part '\n' = false)
    (h : (start c && cs.all part) = true) : '\n' ∉ c :: cs := by
  simp only [Bool.and_eq_true, List.all_eq_true] at h
  intro hmem
  rcases List.mem_cons.1 hmem with rfl | hmem
  · exact Bool.false_ne_true (hstart.symm.trans h.1)
  · exact Bool.false_ne_true (hpart.symm.trans (h.2 _ hmem))

/-- A line feed is no character of a key without quotes. -/
theorem noFeed_of_isIdentifier {name : String} (h : isIdentifier name = true) :
    '\n' ∉ name.toList := by
  unfold isIdentifier at h
  split at h
  · cases h
  · next c cs hcons =>
    rw [hcons]
    exact noFeed_of_classes (fun c => c = '_' || c = '$' || Text.isAlphabetic c) _ (by decide)
      (by decide) h

theorem noFeed_key (name : String) : '\n' ∉ (key name).toList := by
  unfold key
  split
  · next hname => exact noFeed_of_isIdentifier hname
  · exact noFeed_jsonQuoted name

theorem noFeed_temporary (n : Nat) : '\n' ∉ (temporary n).toList := by
  rw [toList_temporary, List.mem_append, not_or]
  refine ⟨by decide, fun h => ?_⟩
  have := Nat.isDigit_of_mem_toDigits (by decide) (by decide) h
  revert this
  decide

theorem noFeed_intercalate {sep : String} (hsep : '\n' ∉ sep.toList) {items : List String}
    (h : ∀ i ∈ items, '\n' ∉ i.toList) : '\n' ∉ (sep.intercalate items).toList := by
  induction items with
  | nil => simp
  | cons item items ih =>
    obtain ⟨hitem, hitems⟩ := List.forall_mem_cons.1 h
    cases items with
    | nil => simpa using hitem
    | cons other items =>
      rw [String.intercalate_cons_cons, String.toList_append, String.toList_append,
        List.mem_append, List.mem_append]
      exact fun hmem => hmem.elim (fun hmem => hmem.elim hitem hsep) (ih hitems)

theorem noFeed_field {f : Field} {dep : Specifier} (h : '\n' ∉ (f.holder dep).name.toList) :
    '\n' ∉ f.text.toList := by
  cases f with
  | same name => exact h
  | renamed property name =>
    change '\n' ∉ (key property ++ ": " ++ name).toList
    simp only [String.toList_append, List.mem_append, not_or]
    exact ⟨⟨noFeed_key property, by decide⟩, h⟩

theorem noFeed_scopeEntry (dep : Specifier) : '\n' ∉ (scopeEntry dep).toList := by
  change '\n' ∉ (scopeObject ++ "[" ++ Text.jsonQuoted dep.text ++ "]").toList
  simp only [String.toList_append, List.mem_append, not_or]
  exact ⟨⟨⟨by decide, by decide⟩, noFeed_jsonQuoted _⟩, by decide⟩

theorem noFeed_hoist {a : Hoist} (h : ∀ b ∈ a.holders, '\n' ∉ b.name.toList) :
    '\n' ∉ a.text.toList := by
  cases a with
  | whole name dep =>
    change '\n' ∉ ("const " ++ name ++ " = " ++ scopeEntry dep ++ ";").toList
    simp only [String.toList_append, List.mem_append, not_or]
    exact ⟨⟨⟨⟨by decide, h _ (List.mem_singleton_self _)⟩, by decide⟩, noFeed_scopeEntry dep⟩,
      by decide⟩
  | fields names dep =>
    have hnames : '\n' ∉ (commas (names.map Field.text)).toList := by
      refine noFeed_intercalate (by decide) fun i hi => ?_
      obtain ⟨f, hf, rfl⟩ := List.mem_map.1 hi
      exact noFeed_field (h _ (List.mem_map_of_mem hf))
    change '\n' ∉ ("const \x7b " ++ commas (names.map Field.text) ++
      (" \x7d = " ++ scopeEntry dep ++ ";")).toList
    simp only [String.toList_append, List.mem_append, not_or]
    exact ⟨⟨by decide, hnames⟩, ⟨by decide, noFeed_scopeEntry dep⟩, by decide⟩

/-- What stands in front is on one line if its variables are. -/
theorem lineFeeds_preface {hoists : List Hoist}
    (h : ∀ b ∈ hoists.flatMap Hoist.holders, '\n' ∉ b.name.toList) :
    lineFeeds (preface hoists) = 0 := by
  rw [lineFeeds_eq_zero]
  unfold preface
  split
  · simp
  · rw [String.toList_append, List.mem_append, not_or]
    refine ⟨noFeed_intercalate (by decide) fun i hi => ?_, by decide⟩
    obtain ⟨a, ha, rfl⟩ := List.mem_map.1 hi
    exact noFeed_hoist fun b hb => h b (List.mem_flatMap.2 ⟨a, ha, hb⟩)

theorem noFeed_exported (k : Nat) (name : String) :
    '\n' ∉ ("__tsb_reexport_" ++ toString k ++ " as " ++ key name).toList := by
  change '\n' ∉ (temporary k ++ " as " ++ key name).toList
  simp only [String.toList_append, List.mem_append, not_or]
  exact ⟨⟨noFeed_temporary k, by decide⟩, noFeed_key name⟩

theorem lineFeeds_exportClause (first : Nat) (names : List String) :
    lineFeeds (exportClause first names) = 0 := by
  rw [lineFeeds_eq_zero]
  simp only [exportClause, String.toList_append, List.mem_append, not_or]
  refine ⟨⟨by decide, noFeed_intercalate (by decide) fun i hi => ?_⟩, by decide⟩
  obtain ⟨⟨name, k⟩, -, rfl⟩ := List.mem_map.1 hi
  exact noFeed_exported k name

theorem noFeed_of_isNameText {cs : List Char} (h : isNameText cs = true) : '\n' ∉ cs := by
  cases cs with
  | nil => cases h
  | cons c cs => exact noFeed_of_classes _ _ (by decide) (by decide) h

end ScriptLoader.Compile.Linked

namespace ScriptLoader.Syntax.Grammar

open Compile.Linked Syntax.Parser

/-! ## Names of import lists -/

theorem clausal_named : Clausal fun n => ∀ i ∈ importItems n, NamedItem i :=
  clausal_importItems (by simp) named_importClause.reached

end ScriptLoader.Syntax.Grammar

namespace ScriptLoader.Compile.Linked

open Syntax

/-! ## Names in front -/

/-- No name that a source of this library imports has a line feed. -/
theorem noFeed_imports {program : Program} {dialect : Dialect} {source : List Char}
    (hread : Program.read dialect source = .ok program) :
    ∀ n ∈ program.statements, ∀ i ∈ imports n, '\n' ∉ i.name.toList := by
  intro n hn i hi
  obtain ⟨j, hj, rfl⟩ := List.mem_map.1 hi
  obtain ⟨item, hitem, himported⟩ := List.mem_filterMap.1 hj
  have hnamed := Grammar.clausal_named.of_read (fun _ _ _ hi => by cases hi) hread n hn item hitem
  unfold imported? at himported
  split at himported
  all_goals first
    | cases himported
      exact noFeed_of_isNameText (hnamed _ rfl)
    | cases himported

/-- No variable in front has a line feed in its name, if no imported name has. -/
theorem noFeed_holders {R : Reader} {program : Program} {dialect : Dialect} {source : List Char}
    {location : String} {options : Options} {p : Plan}
    (hnames : ∀ n ∈ program.statements, ∀ i ∈ imports n, '\n' ∉ i.name.toList)
    (hp : plan R dialect program source location options = .ok p) :
    ∀ b ∈ p.hoists.flatMap Hoist.holders, '\n' ∉ b.name.toList := by
  obtain ⟨q, calls, hd, -, rfl⟩ := plan_ok hp
  obtain ⟨ds, hoists, hresolves, -, hhoists, -, hsubset, -⟩ := adds_declarations hd
  have hfront : q.hoists = hoists := by simpa using hhoists
  intro b hb
  rcases List.mem_append.1 (hsubset (hfront ▸ hb)) with hb | hb
  · obtain ⟨⟨n, dep⟩, hmem, hb⟩ := List.mem_flatMap.1 hb
    obtain ⟨i, hi, rfl⟩ := List.mem_map.1 hb
    have hn : n ∈ program.statements := by
      have hmem : n ∈ ds.map (·.1) := List.mem_map_of_mem hmem
      rw [hresolves.nodes] at hmem
      exact List.mem_of_mem_filter hmem
    exact hnames n hn i (List.mem_of_mem_filter hi)
  · obtain ⟨⟨r, k⟩, -, rfl⟩ := List.mem_map.1 hb
    exact noFeed_temporary k

end ScriptLoader.Compile.Linked
