import ScriptLoader.Fetch
import ScriptLoader.Proofs.Specifier.Extension
import ScriptLoader.Proofs.Specifier.Origin
import ScriptLoader.Proofs.Specifier.Routes

/-!
# Specifiers as entries again

A specifier is a normal form if it is what it is read as: as an entry it gives itself. Along a chain
of imports this can fail: resolution can leave the text of the root empty, take the beginning of a
location away, or leave a blank at the end.

* `Settled`: the segments of what entries and imports give, kept by every path.
* `Specifier.normal_iff`: which of these specifiers are normal forms.
* `Chain`: entries, and imports inside the modules at locations that are asked for.
* `normal_of_chain`: in every chain the normal forms are those that begin as a location does and end
  without a blank; with paths that end with a name and stay below their host nothing else comes.
-/

namespace ScriptLoader

/-! ## Stacks with dots at the bottom only -/

/-- The beginning of a location by dots. -/
def Beginning.IsDots : Beginning → Prop
  | root => False
  | page => True
  | above n => n ≠ 0

/-- Plain segments, and below them only what a directory begins with. -/
def TidyFrom (b : Beginning) (stack : List Segment) : Prop :=
  ∃ names, stack = names ++ b.segments.reverse ∧ ∀ s ∈ names, s.isPlain = true

/-- A stack that belongs to a text that stands for itself. -/
def Grounded (stack : List Segment) : Prop :=
  ∃ above, above ≠ [] ∧
    (stack = above ++ [[]] ∨ ∃ secure, stack = above ++ [[], webScheme secure])

/-- The stacks that resolution comes to. -/
def Settled (stack : List Segment) : Prop := (∃ b, TidyFrom b stack) ∨ Grounded stack

theorem isPlain_iff {s : Segment} :
    s.isPlain = true ↔ s ≠ Segment.current ∧ s ≠ Segment.parent := by
  simp [Segment.isPlain]

theorem isPlain_webScheme (secure : Bool) : (webScheme secure).isPlain = true := by
  cases secure <;> decide

/-- One segment keeps a stack tidy, and one that begins with dots begins with dots then. -/
theorem TidyFrom.push {b : Beginning} {stack : List Segment} (h : TidyFrom b stack) (s : Segment) :
    ∃ b', TidyFrom b' (pushSegment stack s) ∧ (b.IsDots → b'.IsDots) := by
  obtain ⟨names, rfl, hnames⟩ := h
  obtain rfl | rfl | hs := s.dots_or_plain
  · exact ⟨b, ⟨names, pushSegment_current _, hnames⟩, id⟩
  · cases names with
    | nil =>
      refine ⟨b.climb 1, ⟨[], Directory.pushSegment_parent_of_beginning b, by simp⟩, ?_⟩
      cases b with
      | root => exact id
      | page => exact fun _ => Nat.one_ne_zero
      | above n => exact fun _ => Nat.succ_ne_zero n
    | cons t names =>
      obtain ⟨ht, hrest⟩ := List.forall_mem_cons.1 hnames
      obtain ⟨hcurrent, hparent⟩ := isPlain_iff.1 ht
      rw [List.cons_append, pushSegment, if_pos ⟨rfl, by simpa using hparent⟩, climb,
        List.dropWhile_cons_of_neg (by simpa using hcurrent)]
      split
      · next heq => cases heq
      · next u heq =>
        -- The last segment there is: it stays if it is the root, and else nothing is left.
        obtain ⟨rfl, hnil⟩ := List.cons.inj heq
        obtain ⟨rfl, hb⟩ := List.append_eq_nil_iff.1 hnil
        have hdots : ¬ b.IsDots := by
          cases b with
          | root => exact id
          | page => cases hb
          | above n => simpa [Beginning.segments, Beginning.IsDots] using hb
        split
        · exact ⟨.root, ⟨[], rfl, by simp⟩, fun h => absurd h hdots⟩
        · exact ⟨.above 0, ⟨[], rfl, by simp⟩, fun h => absurd h hdots⟩
      · next u rest _ heq =>
        obtain ⟨-, rfl⟩ := List.cons.inj heq
        exact ⟨b, ⟨names, rfl, hrest⟩, id⟩
  · exact ⟨b, ⟨s :: names, pushSegment_plain hs _, List.forall_mem_cons.2 ⟨hs, hnames⟩⟩, id⟩

theorem TidyFrom.walk {b : Beginning} {stack : List Segment} (h : TidyFrom b stack)
    (path : List Segment) :
    ∃ b', TidyFrom b' (resolveSegments stack path) ∧ (b.IsDots → b'.IsDots) := by
  induction path generalizing b stack with
  | nil => exact ⟨b, h, id⟩
  | cons s path ih =>
    obtain ⟨b₁, h₁, hdots₁⟩ := h.push s
    obtain ⟨b₂, h₂, hdots₂⟩ := ih h₁
    exact ⟨b₂, h₂, hdots₂ ∘ hdots₁⟩

/-- The part of a beginning that is below a part of it is a beginning. -/
theorem Beginning.exists_of_suffix (b : Beginning) {kept : List Segment}
    (h : kept <:+ b.segments.reverse) : ∃ b' : Beginning, TidyFrom b' kept := by
  have hnil : TidyFrom (.above 0) [] := ⟨[], rfl, by simp⟩
  have hone : ∀ s : Segment, kept <:+ [s] → kept = [] ∨ kept = [s] := by
    intro s hs
    rcases List.suffix_cons_iff.1 hs with rfl | hs
    · exact .inr rfl
    · exact .inl (List.suffix_nil.1 hs)
  cases b with
  | root =>
    rcases hone _ h with rfl | rfl
    · exact ⟨_, hnil⟩
    · exact ⟨.root, [], rfl, by simp⟩
  | page =>
    rcases hone _ h with rfl | rfl
    · exact ⟨_, hnil⟩
    · exact ⟨.page, [], rfl, by simp⟩
  | above n =>
    rw [Beginning.segments, List.reverse_replicate] at h
    refine ⟨.above kept.length, [], ?_, by simp⟩
    rw [Beginning.segments, List.reverse_replicate, List.nil_append]
    exact List.eq_replicate_iff.2 ⟨rfl, fun s hs => List.eq_of_mem_replicate (h.subset hs)⟩

theorem settled_of_plain {stack : List Segment} (h : ∀ s ∈ stack, s.isPlain = true) :
    Settled stack :=
  .inl ⟨.above 0, stack, by simp [Beginning.segments], h⟩

/-- Either all of the lower part is kept, or only a part of it. -/
theorem suffix_append_cases {kept above lower : List Segment} (h : kept <:+ above ++ lower) :
    kept <:+ lower ∨ ∃ above', above' <:+ above ∧ above' ≠ [] ∧ kept = above' ++ lower := by
  rcases List.suffix_or_suffix_of_suffix h (List.suffix_append above lower) with h' | ⟨above', rfl⟩
  · exact .inl h'
  · by_cases hnil : above' = []
    · exact .inl (by rw [hnil]; exact List.suffix_rfl)
    · obtain ⟨x, hx⟩ := h
      rw [← List.append_assoc] at hx
      exact .inr ⟨above', ⟨x, List.append_cancel_right hx⟩, hnil, rfl⟩

/-- What is left of a settled stack is settled. -/
theorem Settled.suffix {stack kept : List Segment} (h : Settled stack) (hkept : kept <:+ stack) :
    Settled kept := by
  have hplain : ∀ lower : List Segment, (∀ s ∈ lower, s.isPlain = true) → kept <:+ lower →
      Settled kept :=
    fun lower hlower hk => settled_of_plain fun s hs => hlower s (hk.subset hs)
  obtain ⟨b, names, rfl, hnames⟩ | ⟨above, -, rfl | ⟨secure, rfl⟩⟩ := h
  · rcases suffix_append_cases hkept with hk | ⟨names', hsub, -, rfl⟩
    · exact .inl (b.exists_of_suffix hk)
    · exact .inl ⟨b, names', rfl, fun s hs => hnames s (hsub.subset hs)⟩
  · rcases suffix_append_cases hkept with hk | ⟨above', -, hne, rfl⟩
    · exact hplain _ (by decide) hk
    · exact .inr ⟨above', hne, .inl rfl⟩
  · rcases suffix_append_cases hkept with hk | ⟨above', -, hne, rfl⟩
    · refine hplain _ ?_ hk
      simp [isPlain_webScheme, show Segment.isPlain [] = true by decide]
    · exact .inr ⟨above', hne, .inr ⟨secure, rfl⟩⟩

theorem pushSegment_cases (stack : List Segment) (s : Segment) :
    pushSegment stack s = stack ∨ pushSegment stack s = s :: stack ∨
      s = Segment.parent ∧ pushSegment stack s = climb stack := by
  unfold pushSegment
  split
  · next h => exact .inr (.inr ⟨h.1, rfl⟩)
  · split
    · exact .inl rfl
    · exact .inr (.inl rfl)

/-- One segment keeps a stack settled. -/
theorem Settled.push {stack : List Segment} (h : Settled stack) (s : Segment) :
    Settled (pushSegment stack s) := by
  rcases h with ⟨b, hb⟩ | ⟨above, hne, hstack⟩
  · obtain ⟨b', hb', -⟩ := hb.push s
    exact .inl ⟨b', hb'⟩
  · rcases pushSegment_cases stack s with h | h | ⟨-, h⟩
    · rw [h]
      exact .inr ⟨above, hne, hstack⟩
    · rw [h]
      refine .inr ⟨s :: above, List.cons_ne_nil _ _, ?_⟩
      exact hstack.imp (congrArg (s :: ·)) fun ⟨secure, h⟩ => ⟨secure, congrArg (s :: ·) h⟩
    · -- Climbing takes a part of the upper segments away, or all of them and at most one below.
      rw [h]
      have hsettled : Settled stack := .inr ⟨above, hne, hstack⟩
      by_cases hsome : ∃ t ∈ above, t ≠ Segment.current
      · have hclimb : ∀ lower, lower ≠ [] → stack = above ++ lower → climb stack <:+ stack := by
          rintro lower hlower rfl
          rw [climb_append hlower hsome]
          exact List.suffix_append_self_iff.2 ((List.tail_suffix _).trans (List.dropWhile_suffix _))
        rcases hstack with hstack | ⟨secure, hstack⟩
        · exact hsettled.suffix (hclimb _ (by simp) hstack)
        · exact hsettled.suffix (hclimb _ (by simp) hstack)
      · have hall : ∀ t ∈ above, t = Segment.current := by simpa using hsome
        rcases hstack with rfl | ⟨secure, rfl⟩
        · rw [climb_of_currents hall]
          exact settled_of_plain (by decide)
        · rw [climb_of_currents hall]
          cases secure <;> exact settled_of_plain (by decide)

theorem Settled.walk {stack : List Segment} (h : Settled stack) (path : List Segment) :
    Settled (resolveSegments stack path) := by
  induction path generalizing stack with
  | nil => exact h
  | cons s path ih => exact ih (h.push s)

/-! ## Texts -/

theorem isAbsolute_iff {path : List Char} :
    isAbsolute path = true ↔ (∃ rest, path = '/' :: rest) ∨
      ∃ secure rest, path = webScheme secure ++ '/' :: '/' :: rest := by
  simp only [isAbsolute, Bool.or_eq_true, Option.isSome_iff_exists, Text.dropFront?_eq_some_iff]
  constructor
  · rintro ((⟨rest, rfl⟩ | ⟨rest, rfl⟩) | ⟨rest, rfl⟩)
    · exact .inl ⟨rest, rfl⟩
    · exact .inr ⟨false, rest, rfl⟩
    · exact .inr ⟨true, rest, rfl⟩
  · rintro (⟨rest, rfl⟩ | ⟨_ | _, rest, rfl⟩)
    · exact .inl (.inl ⟨rest, rfl⟩)
    · exact .inl (.inr ⟨rest, rfl⟩)
    · exact .inr ⟨rest, rfl⟩

theorem noSlash_webScheme (secure : Bool) : '/' ∉ webScheme secure := by
  cases secure <;> decide

theorem isAbsolute_iff_grounded {path : List Char} :
    isAbsolute path = true ↔ Grounded (Text.splitOn '/' path).reverse := by
  rw [isAbsolute_iff]
  constructor
  · rintro (⟨rest, rfl⟩ | ⟨secure, rest, rfl⟩)
    · exact ⟨(Text.splitOn '/' rest).reverse, by simp [Text.splitOn_ne_nil],
        .inl (by simp [Text.splitOn])⟩
    · refine ⟨(Text.splitOn '/' rest).reverse, by simp [Text.splitOn_ne_nil], .inr ⟨secure, ?_⟩⟩
      rw [Text.splitOn_append (noSlash_webScheme secure)]
      simp [Text.splitOn]
  · rintro ⟨above, hne, hsplit⟩
    have hjoin : ∀ lower : List Segment, (Text.splitOn '/' path).reverse = above ++ lower →
        path = Text.joinWith '/' (lower.reverse ++ above.reverse) := by
      intro lower h
      rw [← List.reverse_append, ← h, List.reverse_reverse, Text.joinWith_splitOn]
    obtain ⟨s, rest, hrest⟩ := List.exists_cons_of_ne_nil
      (show above.reverse ≠ [] by simpa using hne)
    rcases hsplit with h | ⟨secure, h⟩
    · exact .inl ⟨_, by rw [hjoin _ h, hrest]; rfl⟩
    · exact .inr ⟨secure, Text.joinWith '/' (s :: rest), by rw [hjoin _ h, hrest]; rfl⟩

/-- The text of a settled stack has settled segments. -/
theorem Settled.splitOn_stackText {stack : List Segment} (h : Settled stack)
    (hslash : ∀ s ∈ stack, '/' ∉ s) :
    Settled (Text.splitOn '/' (stackText stack)).reverse := by
  rw [ScriptLoader.splitOn_stackText hslash]
  split
  · exact .inl ⟨.page, [], rfl, by simp⟩
  · rwa [List.reverse_reverse]

theorem settled_page : Settled [Segment.current] := .inl ⟨.page, [], rfl, by simp⟩

/-! ## Locations of a specifier -/

/-- The directory of all locations that a specifier is asked for at. -/
def Specifier.directory (s : Specifier) : List Segment :=
  dropEmptyTail (Text.splitOn '/' s.text.toList).dropLast.reverse

theorem directoryStack_append {more : List Char} (hne : more ≠ []) (hslash : '/' ∉ more)
    (location : List Char) :
    directoryStack (location ++ more) =
      dropEmptyTail (Text.splitOn '/' location).dropLast.reverse := by
  obtain ⟨front, last, hsplit, -⟩ := Text.exists_splitOn_eq_concat '/' location
  have hend : (location ++ more).getLast? ≠ some '/' := by
    rw [List.getLast?_append, List.getLast?_eq_some_getLast hne]
    exact fun h => hslash (Option.some.inj h ▸ List.getLast_mem hne)
  rw [directoryStack, if_neg hend, Text.splitOn_append_of_notMem hslash hsplit, hsplit]
  simp

theorem directoryStack_of_mem_plan {s : Specifier} {markup : Bool} {location : String}
    (h : location ∈ (Fetch.plan s markup).flatten) :
    directoryStack location.toList = s.directory := by
  have hprobe : ∀ ext ∈ ["ts", "tsx", "js"],
      directoryStack (s.withExtension ext).toList = s.directory := by
    intro ext hext
    have hlist : (s.withExtension ext).toList = s.text.toList ++ ('.' :: ext.toList) := by
      simp [Specifier.withExtension]
    rw [hlist]
    refine directoryStack_append (List.cons_ne_nil _ _) ?_ _
    simp only [List.mem_cons, List.not_mem_nil, or_false] at hext
    rcases hext with rfl | rfl | rfl <;> decide
  unfold Fetch.plan at h
  split at h
  · next ext hext =>
    obtain ⟨hmem, stem, htext, -⟩ := Specifier.explicitExtension?_eq_some_iff.1 hext
    have hslash : '/' ∉ '.' :: ext.toList := by
      simp only [Specifier.explicitExtensions, List.mem_cons, List.not_mem_nil, or_false] at hmem
      rcases hmem with rfl | rfl | rfl | rfl <;> decide
    have hstem : s.directory = dropEmptyTail (Text.splitOn '/' stem).dropLast.reverse := by
      obtain ⟨front, last, hsplit, -⟩ := Text.exists_splitOn_eq_concat '/' stem
      rw [Specifier.directory, htext, Text.splitOn_append_of_notMem hslash hsplit, hsplit]
      simp
    have hself : directoryStack s.text.toList = s.directory := by
      rw [hstem, htext]
      exact directoryStack_append (List.cons_ne_nil _ _) hslash stem
    split at h
    · next hjs =>
      subst hjs
      simp only [List.flatten_cons, List.flatten_nil, List.append_nil, List.singleton_append,
        List.mem_cons, List.not_mem_nil, or_false] at h
      rcases h with rfl | rfl
      · exact hself
      · have htyped : s.text.toList.dropLast.dropLast ++ ['t', 's'] = stem ++ ".ts".toList := by
          rw [htext, show stem ++ '.' :: "js".toList = stem ++ ['.'] ++ ['j'] ++ ['s'] by simp,
            List.dropLast_concat, List.dropLast_concat]
          simp
        rw [String.toList_ofList, htyped, hstem]
        exact directoryStack_append (by decide) (by decide) stem
    · obtain rfl : location = s.text := by simpa using h
      exact hself
  · cases markup with
    | true =>
      obtain rfl | rfl | rfl : location = s.withExtension "ts" ∨
        location = s.withExtension "tsx" ∨ location = s.withExtension "js" := by simpa using h
      · exact hprobe _ (by simp)
      · exact hprobe _ (by simp)
      · exact hprobe _ (by simp)
    | false =>
      obtain rfl | rfl : location = s.withExtension "ts" ∨ location = s.withExtension "js" := by
        simpa using h
      · exact hprobe _ (by simp)
      · exact hprobe _ (by simp)

/-! ## Blanks -/

namespace Text

theorem isBlank_of_mem_head?_dropWhile {cs : List Char} {c : Char}
    (h : c ∈ (cs.dropWhile isBlank).head?) : isBlank c = false := by
  have hnot := List.head?_dropWhile_not isBlank cs
  rwa [Option.mem_def.1 h] at hnot

theorem trim_eq_self_iff {cs : List Char} :
    trim cs = cs ↔ (∀ c ∈ cs.head?, isBlank c = false) ∧ ∀ c ∈ cs.getLast?, isBlank c = false := by
  constructor
  · intro h
    have hlength : (trimStart cs).length ≤ cs.length := (List.dropWhile_suffix _).length_le
    have hend : (trim cs).length ≤ (trimStart cs).length := by
      simpa [trim, trimEnd] using
        (List.dropWhile_suffix (l := (trimStart cs).reverse) isBlank).length_le
    have hstart : trimStart cs = cs :=
      (List.dropWhile_suffix isBlank).eq_of_length_le (by rwa [h] at hend)
    rw [trim, hstart] at h
    constructor
    · intro c hc
      rw [← hstart] at hc
      exact isBlank_of_mem_head?_dropWhile hc
    · intro c hc
      rw [← h, trimEnd, List.getLast?_reverse] at hc
      exact isBlank_of_mem_head?_dropWhile hc
  · rintro ⟨hhead, hlast⟩
    have hself : ∀ l : List Char, (∀ c ∈ l.head?, isBlank c = false) → l.dropWhile isBlank = l := by
      intro l hl
      cases l with
      | nil => rfl
      | cons c l => rw [List.dropWhile_cons_of_neg (by simpa using hl)]
    rw [trim, trimStart, hself cs hhead, trimEnd, hself cs.reverse (by simpa using hlast),
      List.reverse_reverse]

/-- What is trimmed off behind is blank. -/
theorem exists_trimEnd_append (cs : List Char) :
    ∃ blanks, cs = trimEnd cs ++ blanks ∧ ∀ c ∈ blanks, isBlank c = true := by
  refine ⟨(cs.reverse.takeWhile isBlank).reverse, ?_, fun c hc => ?_⟩
  · rw [trimEnd, ← List.reverse_append, List.takeWhile_append_dropWhile, List.reverse_reverse]
  · exact List.mem_takeWhile_imp (List.mem_reverse.1 hc)

theorem trim_trim (cs : List Char) : trim (trim cs) = trim cs := by
  rw [trim_eq_self_iff]
  constructor
  · intro c hc
    obtain ⟨blanks, hblanks, -⟩ := exists_trimEnd_append (trimStart cs)
    have hstart : c ∈ (trimStart cs).head? := by
      rw [hblanks, ← trim, List.head?_append, Option.mem_def.1 hc]
      rfl
    exact isBlank_of_mem_head?_dropWhile hstart
  · intro c hc
    rw [trim, trimEnd, List.getLast?_reverse] at hc
    exact isBlank_of_mem_head?_dropWhile hc

end Text

/-! ## Normal forms -/

/-- The characters of a stack, with one for each segment that keeps it from the next. -/
def weight : List Segment → Nat
  | [] => 0
  | s :: stack => s.length + 1 + weight stack

@[simp] theorem weight_nil : weight [] = 0 := rfl

@[simp] theorem weight_cons (s : Segment) (stack : List Segment) :
    weight (s :: stack) = s.length + 1 + weight stack := rfl

@[simp] theorem weight_append (front back : List Segment) :
    weight (front ++ back) = weight front + weight back := by
  induction front with
  | nil => simp
  | cons s front ih =>
    rw [List.cons_append, weight_cons, weight_cons, ih]
    omega

@[simp] theorem weight_reverse (stack : List Segment) : weight stack.reverse = weight stack := by
  induction stack with
  | nil => rfl
  | cons s stack ih =>
    rw [List.reverse_cons, weight_append, ih, weight_cons, weight_cons, weight_nil]
    omega

theorem weight_resolveSegments_le (stack path : List Segment) :
    weight (resolveSegments stack path) ≤ weight stack + weight path := by
  induction path generalizing stack with
  | nil => exact Nat.le_add_right _ _
  | cons s path ih =>
    have hpush : weight (pushSegment stack s) ≤ weight stack + (s.length + 1) := by
      obtain ⟨kept, ⟨left, rfl⟩, h | h⟩ := pushSegment_suffix stack s
      · rw [h, weight_append]
        omega
      · rw [h, weight_append, weight_cons]
        omega
    have hrest := ih (pushSegment stack s)
    simp only [resolveSegments, List.foldl_cons, weight_cons] at hrest hpush ⊢
    omega

theorem weight_splitOn (cs : List Char) : weight (Text.splitOn '/' cs) = cs.length + 1 := by
  induction cs with
  | nil => rfl
  | cons c cs ih =>
    rw [Text.splitOn]
    split
    · simp [ih]
      omega
    · split
      · next hs => exact absurd hs (Text.splitOn_ne_nil _ _)
      · next p ps hs =>
        rw [hs] at ih
        simp at ih ⊢
        omega

theorem resolveSegments_append (stack front back : List Segment) :
    resolveSegments stack (front ++ back) = resolveSegments (resolveSegments stack front) back :=
  List.foldl_append

theorem resolveSegments_plain {names : List Segment} (h : ∀ s ∈ names, s.isPlain = true)
    (stack : List Segment) : resolveSegments stack names = names.reverse ++ stack := by
  induction names generalizing stack with
  | nil => rfl
  | cons s names ih =>
    obtain ⟨hs, hnames⟩ := List.forall_mem_cons.1 h
    rw [resolveSegments, List.foldl_cons, pushSegment_plain hs, ← resolveSegments, ih hnames]
    simp

theorem resolveSegments_parents (b : Beginning) (n : Nat) :
    resolveSegments b.segments.reverse (List.replicate n Segment.parent) =
      (b.climb n).segments.reverse := by
  induction n generalizing b with
  | zero => rw [Beginning.climb_zero]; rfl
  | succ n ih =>
    rw [List.replicate_succ, resolveSegments, List.foldl_cons,
      Directory.pushSegment_parent_of_beginning, ← resolveSegments, ih, Beginning.climb_climb,
      Nat.add_comm 1 n]

/-- The text begins with a segment of dots. -/
def BeginsWithDots (text : List Char) : Prop :=
  (Text.splitOn '/' text).head? = some Segment.current ∨
    (Text.splitOn '/' text).head? = some Segment.parent

namespace Specifier

/-- The specifier is what it is read as. -/
def Normal (s : Specifier) : Prop := s.text ≠ "" ∧ Specifier.parse s.text = .ok s

/-- The specifier begins as locations do: it stands for itself, or it begins with dots. -/
def Anchored (s : Specifier) : Prop :=
  isAbsolute s.text.toList = true ∨ BeginsWithDots s.text.toList

end Specifier

/-- Below dots there are dots again. -/
theorem TidyFrom.head?_reverse {b : Beginning} {stack : List Segment} (h : TidyFrom b stack)
    (hdots : b.IsDots) :
    stack.reverse.head? = some Segment.current ∨ stack.reverse.head? = some Segment.parent := by
  obtain ⟨names, rfl, -⟩ := h
  rw [List.reverse_append, List.reverse_reverse]
  cases b with
  | root => exact absurd hdots id
  | page => exact .inl rfl
  | above n =>
    obtain ⟨n, rfl⟩ := Nat.exists_eq_succ_of_ne_zero hdots
    exact .inr rfl

theorem resolvePath_pageRoot {path : List Char} (h : isAbsolute path = false) :
    resolvePath path Specifier.pageRoot.toList =
      stackText (resolveSegments [Segment.current] (relativeSegments path)) := by
  rw [resolvePath, if_neg (by simp [h])]
  rfl

/-- What is resolved against the root of the page begins with dots. -/
theorem beginsWithDots_resolvePath {path : List Char} (h : isAbsolute path = false) :
    BeginsWithDots (resolvePath path Specifier.pageRoot.toList) := by
  have hpage : TidyFrom .page [Segment.current] := ⟨[], rfl, by simp⟩
  obtain ⟨b, hb, hdots⟩ := hpage.walk (relativeSegments path)
  have hslash : ∀ s ∈ resolveSegments [Segment.current] (relativeSegments path), '/' ∉ s :=
    fun s => noSlash_of_mem_resolveSegments (by decide) fun s => noSlash_of_mem_relativeSegments
  rw [BeginsWithDots, resolvePath_pageRoot h, splitOn_stackText hslash]
  split
  · exact .inl rfl
  · exact hb.head?_reverse (hdots trivial)

/-- A text that begins with dots has no more characters than it had with blanks behind it, when it
is resolved against the root of the page. -/
theorem length_resolvePath_le {path : List Char} (h : isAbsolute path = false)
    (hdots : BeginsWithDots path) :
    (resolvePath path Specifier.pageRoot.toList).length ≤ path.length := by
  have hslash : ∀ s ∈ resolveSegments [Segment.current] (relativeSegments path), '/' ∉ s :=
    fun s => noSlash_of_mem_resolveSegments (by decide) fun s => noSlash_of_mem_relativeSegments
  -- The first segment takes the place of the one for the page.
  obtain ⟨s, rest, hsplit, hs⟩ : ∃ s rest, Text.splitOn '/' path = s :: rest ∧
      (s = Segment.current ∨ s = Segment.parent) := by
    obtain ⟨s, rest, hsplit⟩ := List.exists_cons_of_ne_nil (Text.splitOn_ne_nil '/' path)
    refine ⟨s, rest, hsplit, ?_⟩
    simpa [BeginsWithDots, hsplit] using hdots
  have hrelative : relativeSegments path = s :: rest := by
    rw [relativeSegments, hsplit, List.dropWhile_cons_of_neg]
    rcases hs with rfl | rfl <;> decide
  have hfirst : resolveSegments [Segment.current] (relativeSegments path) =
      resolveSegments [s] rest := by
    rw [hrelative, resolveSegments, List.foldl_cons,
      show pushSegment [Segment.current] s = [s] by rcases hs with rfl | rfl <;> decide]
    rfl
  have hweight := weight_resolveSegments_le [s] rest
  have hpath := weight_splitOn path
  have htext := weight_splitOn (resolvePath path Specifier.pageRoot.toList)
  rw [resolvePath_pageRoot h, splitOn_stackText hslash, hfirst] at htext
  rw [resolvePath_pageRoot h, hfirst]
  have hlength : 1 ≤ s.length := by rcases hs with rfl | rfl <;> decide
  rw [hsplit] at hpath
  simp only [weight_cons, weight_nil] at hweight hpath
  split at htext
  · have hone : weight [Segment.current] = 2 := rfl
    omega
  · rw [weight_reverse] at htext
    omega

/-- Blanks behind a text are lost when it is resolved against the root of the page. -/
theorem trim_of_resolvePath_eq {text : List Char} (hdots : BeginsWithDots text)
    (habs : isAbsolute (Text.trim text) = false)
    (hself : resolvePath (Text.trim text) Specifier.pageRoot.toList = text) :
    Text.trim text = text := by
  have hdot : ∀ s : Segment, (s = Segment.current ∨ s = Segment.parent) →
      ∀ c ∈ s, Text.isBlank c = false := by
    intro s hs c hc
    have hc : c = '.' := by
      rcases hs with rfl | rfl <;> simpa [Segment.current, Segment.parent] using hc
    rw [hc]
    decide
  obtain ⟨s, rest, hsplit⟩ := List.exists_cons_of_ne_nil (Text.splitOn_ne_nil '/' text)
  have hs : s = Segment.current ∨ s = Segment.parent := by
    simpa [BeginsWithDots, hsplit] using hdots
  have hstart : Text.trimStart text = text := by
    have htext : text = Text.joinWith '/' (s :: rest) := by rw [← hsplit, Text.joinWith_splitOn]
    obtain ⟨c, more, hc⟩ : ∃ c more, s = c :: more :=
      List.exists_cons_of_ne_nil (by rcases hs with rfl | rfl <;> decide)
    rw [hc, Text.joinWith_cons_cons] at htext
    rw [htext, Text.trimStart, List.dropWhile_cons_of_neg]
    simpa using hdot s hs c (by simp [hc])
  obtain ⟨blanks, htext, hblanks⟩ := Text.exists_trimEnd_append text
  have htrim : Text.trim text = Text.trimEnd text := by rw [Text.trim, hstart]
  rw [← htrim] at htext
  suffices hnil : blanks = [] by rw [hnil, List.append_nil] at htext; exact htext.symm
  have hslash : '/' ∉ blanks := fun h => absurd (hblanks _ h) (by decide)
  obtain ⟨front, last, hlast, -⟩ := Text.exists_splitOn_eq_concat '/' (Text.trim text)
  have hparts : Text.splitOn '/' text = front ++ [last ++ blanks] := by
    rw [htext]
    exact Text.splitOn_append_of_notMem hslash hlast
  cases front with
  | nil =>
    -- The blanks are in the segment of dots itself.
    refine List.eq_nil_iff_forall_not_mem.2 fun c hc => ?_
    have hfirst : s = last ++ blanks := (List.cons.inj (hsplit.symm.trans hparts)).1
    have hno := hdot s hs c (by simp [hfirst, hc])
    simp [hblanks c hc] at hno
  | cons t front =>
    have hfirst : BeginsWithDots (Text.trim text) := by
      rw [BeginsWithDots, hlast]
      rwa [BeginsWithDots, hparts] at hdots
    have hle := length_resolvePath_le habs hfirst
    rw [hself] at hle
    have hlength := congrArg List.length htext
    rw [List.length_append] at hlength
    exact List.eq_nil_of_length_eq_zero (by omega)

/-- What is tidy and begins with dots is resolved to itself. -/
theorem resolvePath_of_tidyFrom {b : Beginning} {text : List Char}
    (h : TidyFrom b (Text.splitOn '/' text).reverse) (hdots : BeginsWithDots text)
    (habs : isAbsolute text = false) : resolvePath text Specifier.pageRoot.toList = text := by
  obtain ⟨names, hnames, hplain⟩ := h
  have hsplit : Text.splitOn '/' text = b.segments ++ names.reverse := by
    rw [← List.reverse_reverse (Text.splitOn '/' text), hnames]
    simp
  have hfirst : resolveSegments [Segment.current] b.segments = b.segments.reverse ∧
      b.segments ≠ [] ∧ b.segments.head? ≠ some [] := by
    rw [BeginsWithDots, hsplit] at hdots
    cases b with
    | root => rcases hdots with h | h <;> exact absurd (Option.some.inj h) (by decide)
    | page => decide
    | above n =>
      cases n with
      | zero =>
        -- The first segment is a plain one.
        have hmem : ∀ s, names.reverse.head? = some s → s.isPlain = true := fun s hs =>
          hplain s (List.mem_reverse.1 (List.mem_of_mem_head? hs))
        rcases hdots with h | h <;> exact absurd (hmem _ h) (by decide)
      | succ n => exact ⟨resolveSegments_parents .page (n + 1), by simp [Beginning.segments],
          by simp [Beginning.segments, List.replicate_succ, Segment.parent]⟩
  obtain ⟨hbeginning, hne, hhead⟩ := hfirst
  have hrelative : relativeSegments text = b.segments ++ names.reverse := by
    obtain ⟨s, rest, hs⟩ := List.exists_cons_of_ne_nil hne
    rw [relativeSegments, hsplit, hs, List.cons_append, List.dropWhile_cons_of_neg]
    simpa [hs] using hhead
  have hwalk : resolveSegments [Segment.current] (b.segments ++ names.reverse) =
      names ++ b.segments.reverse := by
    rw [resolveSegments_append, hbeginning, resolveSegments_plain (by simpa using hplain),
      List.reverse_reverse]
  rw [resolvePath_pageRoot habs, hrelative, hwalk, ← hnames, stackText,
    if_neg (by simp [Text.splitOn_ne_nil]), List.reverse_reverse, Text.joinWith_splitOn]

/-- Among what resolution gives, the normal forms are what begins as a location does and does not end
with a blank. -/
theorem Specifier.normal_iff {s : Specifier}
    (hs : Settled (Text.splitOn '/' s.text.toList).reverse) :
    s.Normal ↔ Text.trim s.text.toList = s.text.toList ∧ s.Anchored := by
  constructor
  · rintro ⟨-, hparse⟩
    unfold Specifier.parse at hparse
    dsimp only at hparse
    split at hparse
    · cases hparse
    · have hself : resolvePath (Text.trim s.text.toList) Specifier.pageRoot.toList =
          s.text.toList := by
        have htext := congrArg Specifier.text (Except.ok.inj hparse)
        exact String.toList_ofList.symm.trans (congrArg String.toList htext)
      cases habs : isAbsolute (Text.trim s.text.toList) with
      | true =>
        rw [resolvePath, if_pos habs] at hself
        exact ⟨hself, .inl (hself ▸ habs)⟩
      | false =>
        have hdots : BeginsWithDots s.text.toList := by
          rw [← hself]
          exact beginsWithDots_resolvePath habs
        exact ⟨trim_of_resolvePath_eq hdots habs hself, .inr hdots⟩
  · rintro ⟨htrim, hanchored⟩
    have hne : s.text.toList ≠ [] := by
      intro hnil
      rcases hanchored with h | h
      · rw [hnil] at h
        cases h
      · rw [BeginsWithDots, hnil] at h
        revert h
        decide
    refine ⟨fun h => hne (by rw [h]; rfl), ?_⟩
    have hresolve : resolvePath s.text.toList Specifier.pageRoot.toList = s.text.toList := by
      cases habs : isAbsolute s.text.toList with
      | true => rw [resolvePath, if_pos habs]
      | false =>
        have hdots : BeginsWithDots s.text.toList := by simpa [Anchored, habs] using hanchored
        obtain ⟨b, hb⟩ : ∃ b, TidyFrom b (Text.splitOn '/' s.text.toList).reverse :=
          hs.resolve_right fun h => by simp [isAbsolute_iff_grounded.2 h] at habs
        exact resolvePath_of_tidyFrom hb hdots habs
    rw [Specifier.parse, htrim]
    simp only [hne, if_false, hresolve, String.ofList_toList]

/-! ## Chains of imports -/

/-- The specifiers of entries, and of imports inside the modules at locations that are asked for, by
trimmed paths that `allowed` holds of together with where they are resolved. -/
inductive Chain (allowed : List Char → String → Prop) : Specifier → Prop where
  | entry {raw : String} {s : Specifier} (h : allowed (Text.trim raw.toList) Specifier.pageRoot)
    (hs : Specifier.parse raw = .ok s) : Chain allowed s
  | imported {s t : Specifier} {markup : Bool} {raw location : String} (hs : Chain allowed s)
    (hl : location ∈ (Fetch.plan s markup).flatten) (h : allowed (Text.trim raw.toList) location)
    (ht : Specifier.resolve raw location = .ok t) : Chain allowed t

theorem Specifier.resolve_eq_ok_iff {raw base : String} {s : Specifier} :
    Specifier.resolve raw base = .ok s ↔ Text.trim raw.toList ≠ [] ∧
      s.text = String.ofList (resolvePath (Text.trim raw.toList) base.toList) := by
  unfold Specifier.resolve
  cases s
  dsimp only
  split
  · next h => simp [h]
  · next h => simp [h, eq_comm]

/-- An entry is an import at the root of the page. -/
theorem Specifier.resolve_of_parse {raw : String} {s : Specifier}
    (h : Specifier.parse raw = .ok s) : Specifier.resolve raw Specifier.pageRoot = .ok s := by
  unfold Specifier.parse at h
  unfold Specifier.resolve
  dsimp only at h ⊢
  split
  · next hnil => rw [if_pos hnil] at h; cases h
  · next hne => rwa [if_neg hne] at h

/-- What is resolved against a settled directory is settled. -/
theorem settled_of_resolve {raw base : String} {s : Specifier}
    (h : Specifier.resolve raw base = .ok s) (hbase : Settled (directoryStack base.toList)) :
    Settled (Text.splitOn '/' s.text.toList).reverse := by
  obtain ⟨-, htext⟩ := Specifier.resolve_eq_ok_iff.1 h
  rw [htext, String.toList_ofList, resolvePath]
  split
  · next habs => exact .inr (isAbsolute_iff_grounded.1 habs)
  · refine (hbase.walk _).splitOn_stackText fun s => ?_
    exact noSlash_of_mem_resolveSegments (fun s => noSlash_of_mem_directoryStack)
      fun s => noSlash_of_mem_relativeSegments

theorem Specifier.settled_directory {s : Specifier}
    (h : Settled (Text.splitOn '/' s.text.toList).reverse) : Settled s.directory := by
  refine h.suffix ((dropEmptyTail_suffix _).trans ?_)
  rw [← List.tail_reverse]
  exact List.tail_suffix _

/-- All specifiers of a chain are settled. -/
theorem Chain.settled {allowed : List Char → String → Prop} {s : Specifier} (h : Chain allowed s) :
    Settled (Text.splitOn '/' s.text.toList).reverse := by
  induction h with
  | entry _ hs => exact settled_of_resolve (Specifier.resolve_of_parse hs) settled_page
  | imported hs hl _ ht ih =>
    refine settled_of_resolve ht ?_
    rw [directoryStack_of_mem_plan hl]
    exact Specifier.settled_directory ih

/-! ## Chains that stay below a beginning -/

/-- A directory with a beginning: the root, dots, or the origin of an address. -/
def Seated (stack : List Segment) : Prop :=
  (∃ above, stack = above ++ [[]]) ∨ (∃ b, TidyFrom b stack ∧ b.IsDots) ∨
    ∃ (o : Origin) (above : List Segment), stack = above ++ o.stack

/-- A path that keeps its place: it stands for itself, with a slash behind the host if it is a web
address, or it ends with a name and does not leave the host of where it is resolved. -/
def Steady (path : List Char) (base : String) : Prop :=
  if isAbsolute path = true then
    path.head? = some '/' ∨ ∃ (o : Origin) (rest : List Char), path = o.location rest
  else
    (∃ s, (relativeSegments path).getLast? = some s ∧ s.isPlain = true) ∧
      ∀ (o : Origin) (rest : List Char), base.toList = o.location rest → ¬ o.Leaves rest path

theorem Seated.ne_nil {stack : List Segment} (h : Seated stack) : stack ≠ [] := by
  obtain ⟨above, rfl⟩ | ⟨b, ⟨names, rfl, hnames⟩, hdots⟩ | ⟨o, above, rfl⟩ := h
  · simp
  · cases b with
    | root => exact absurd hdots id
    | page => simp [Beginning.segments]
    | above n =>
      have hn : n ≠ 0 := hdots
      simp [Beginning.segments, hn]
  · simp [Origin.stack]

theorem climb_append_root (above : List Segment) :
    ∃ above', climb (above ++ [[]]) = above' ++ [[]] := by
  by_cases hsome : ∃ t ∈ above, t ≠ Segment.current
  · exact ⟨_, climb_append (by simp) hsome⟩
  · have hall : ∀ t ∈ above, t = Segment.current := by simpa using hsome
    exact ⟨[], by rw [climb_of_currents hall]; decide⟩

/-- The root stays at the bottom. -/
theorem resolveSegments_append_root (above path : List Segment) :
    ∃ above', resolveSegments (above ++ [[]]) path = above' ++ [[]] := by
  induction path generalizing above with
  | nil => exact ⟨above, rfl⟩
  | cons s path ih =>
    obtain ⟨above', hpush⟩ : ∃ above', pushSegment (above ++ [[]]) s = above' ++ [[]] := by
      rcases pushSegment_cases (above ++ [[]]) s with h | h | ⟨-, h⟩
      · exact ⟨above, h⟩
      · exact ⟨s :: above, h⟩
      · rw [h]
        exact climb_append_root above
    obtain ⟨left, hleft⟩ := ih above'
    exact ⟨left, by rw [← hleft, resolveSegments, List.foldl_cons, hpush]; rfl⟩

theorem dropEmptyTail_ne_nil {stack : List Segment} (h : stack ≠ []) : dropEmptyTail stack ≠ [] := by
  fun_induction dropEmptyTail stack with
  | case1 => exact h
  | case2 s => exact h
  | case3 t rest ih => exact ih (List.cons_ne_nil t rest)
  | case4 s t rest _ => exact h

theorem Seated.dropEmptyTail {stack : List Segment} (h : Seated stack) :
    Seated (dropEmptyTail stack) := by
  obtain ⟨above, rfl⟩ | ⟨b, ⟨names, rfl, hnames⟩, hdots⟩ | ⟨o, above, rfl⟩ := h
  · rcases suffix_append_cases (dropEmptyTail_suffix (above ++ [[]])) with h | ⟨above', -, -, h⟩
    · rcases List.suffix_cons_iff.1 h with h | h
      · exact .inl ⟨[], h⟩
      · exact absurd (List.suffix_nil.1 h) (dropEmptyTail_ne_nil (by simp))
    · exact .inl ⟨above', h⟩
  · refine .inr (.inl ⟨b, ?_, hdots⟩)
    obtain ⟨s, lower, hlower, hs⟩ : ∃ s lower, b.segments.reverse = s :: lower ∧ s ≠ [] := by
      cases b with
      | root => exact absurd hdots id
      | page => exact ⟨_, [], rfl, by decide⟩
      | above n =>
        obtain ⟨n, rfl⟩ := Nat.exists_eq_succ_of_ne_zero hdots
        exact ⟨Segment.parent, List.replicate n Segment.parent,
          by rw [Beginning.segments, List.reverse_replicate]; rfl, by decide⟩
    rw [hlower, dropEmptyTail_append hs]
    exact ⟨names.dropWhile (· = []), by rw [hlower],
      fun t ht => hnames t ((List.dropWhile_suffix _).subset ht)⟩
  · exact .inr (.inr ⟨o, _, dropEmptyTail_append o.host_ne_nil above [[], o.scheme]⟩)

/-- The directory of a location is less than all of its segments. -/
theorem exists_append_directoryStack (base : List Char) :
    ∃ file, file ≠ [] ∧ (Text.splitOn '/' base).reverse = file ++ directoryStack base := by
  obtain ⟨front, last, hsplit, -⟩ := Text.exists_splitOn_eq_concat '/' base
  have hreverse : (Text.splitOn '/' base).reverse = last :: front.reverse := by simp [hsplit]
  have hdirectory : directoryStack base <:+ front.reverse := by
    rw [directoryStack, hreverse]
    split
    · next hslash =>
      -- The last segment is the empty one behind the slash.
      obtain ⟨before, rfl⟩ := List.getLast?_eq_some_iff.1 hslash
      rw [Text.splitOn_concat] at hsplit
      obtain ⟨rfl, hlast⟩ := List.append_inj' hsplit rfl
      obtain rfl : [] = last := by simpa using hlast
      obtain ⟨t, rest, hrest⟩ := List.exists_cons_of_ne_nil
        (show (Text.splitOn '/' before).reverse ≠ [] by simp [Text.splitOn_ne_nil])
      rw [hrest, dropEmptyTail, if_pos rfl]
      exact dropEmptyTail_suffix _
    · exact dropEmptyTail_suffix _
  obtain ⟨more, hmore⟩ := hdirectory
  exact ⟨last :: more, List.cons_ne_nil _ _, by rw [hreverse, ← hmore, List.cons_append]⟩

/-- What has an origin below its directory is a location on this origin. -/
theorem Origin.exists_location {o : Origin} {base : List Char} {above : List Segment}
    (h : directoryStack base = above ++ o.stack) : ∃ rest, base = o.location rest := by
  obtain ⟨file, hfile, hsplit⟩ := exists_append_directoryStack base
  obtain ⟨s, more, hmore⟩ := List.exists_cons_of_ne_nil
    (show (file ++ above).reverse ≠ [] by simp [hfile])
  refine ⟨Text.joinWith '/' (s :: more), ?_⟩
  have hsegments : Text.splitOn '/' base = [o.scheme, [], o.host] ++ s :: more := by
    rw [← hmore, ← List.reverse_reverse (Text.splitOn '/' base), hsplit, h, ← List.append_assoc,
      List.reverse_append]
    rfl
  rw [← Text.joinWith_splitOn '/' base, hsegments]
  simp [Text.joinWith, location, text]

/-- A steady path leads from a directory with a beginning to one. -/
theorem Seated.walk {path : List Char} {base : String} (h : Seated (directoryStack base.toList))
    (hpath : ∀ (o : Origin) (rest : List Char), base.toList = o.location rest →
      ¬ o.Leaves rest path)
    {front more : List Segment} (hfront : relativeSegments path = front ++ more) :
    Seated (resolveSegments (directoryStack base.toList) front) := by
  rcases h with ⟨above, h⟩ | ⟨b, h, hdots⟩ | ⟨o, above, h⟩
  · rw [h]
    exact .inl (resolveSegments_append_root above front)
  · obtain ⟨b', hb', hdots'⟩ := h.walk front
    exact .inr (.inl ⟨b', hb', hdots' hdots⟩)
  · obtain ⟨rest, hrest⟩ := Origin.exists_location h
    rw [hrest, directoryStack_location]
    refine .inr (.inr ⟨o, o.resolveSegments_stays fun hl hc => ?_⟩)
    exact hpath o rest hrest ⟨hl, hfront ▸ hc.append more⟩

/-- A segment behind a directory with a beginning is behind an anchor. -/
theorem Seated.anchored_cons {stack : List Segment} (h : Seated stack) {s : Segment}
    (hs : s.isPlain = true) {text : List Char} (htext : Text.splitOn '/' text = (s :: stack).reverse) :
    isAbsolute text = true ∨ BeginsWithDots text := by
  obtain ⟨above, rfl⟩ | ⟨b, ⟨names, rfl, hnames⟩, hdots⟩ | ⟨o, above, rfl⟩ := h
  · left
    rw [isAbsolute_iff_grounded, htext, List.reverse_reverse]
    exact ⟨s :: above, List.cons_ne_nil _ _, .inl rfl⟩
  · right
    have htidy : TidyFrom b (s :: (names ++ b.segments.reverse)) :=
      ⟨s :: names, rfl, List.forall_mem_cons.2 ⟨hs, hnames⟩⟩
    rw [BeginsWithDots, htext]
    exact htidy.head?_reverse hdots
  · left
    rw [isAbsolute_iff_grounded, htext, List.reverse_reverse]
    exact ⟨s :: above ++ [o.host], by simp, .inr ⟨o.secure, by simp [Origin.stack, Origin.scheme]⟩⟩

theorem head?_of_beginsWithDots {text : List Char} (h : BeginsWithDots text) :
    text.head? = some '.' := by
  obtain ⟨s, rest, hsplit⟩ := List.exists_cons_of_ne_nil (Text.splitOn_ne_nil '/' text)
  have hs : s = Segment.current ∨ s = Segment.parent := by
    simpa [BeginsWithDots, hsplit] using h
  rw [← Text.joinWith_splitOn '/' text, hsplit]
  rcases hs with rfl | rfl
  · rw [Segment.current, Text.joinWith_cons_cons]
    rfl
  · rw [Segment.parent, Text.joinWith_cons_cons]
    rfl

/-- An anchor is no blank. -/
theorem isBlank_head?_of_anchored {text : List Char}
    (h : isAbsolute text = true ∨ BeginsWithDots text) :
    ∀ c ∈ text.head?, Text.isBlank c = false := by
  rcases h with h | h
  · rcases isAbsolute_iff.1 h with ⟨rest, rfl⟩ | ⟨secure, rest, rfl⟩
    · rintro c ⟨⟩
      decide
    · cases secure <;> rintro c ⟨⟩ <;> decide
  · rw [head?_of_beginsWithDots h]
    rintro c ⟨⟩
    decide

/-- A text ends as its last segment does, or with a slash. -/
theorem getLast?_of_splitOn {text : List Char} {front : List Segment} {last : Segment}
    (h : Text.splitOn '/' text = front ++ [last]) :
    (last ≠ [] → text.getLast? = last.getLast?) ∧
      (last = [] → front ≠ [] → text.getLast? = some '/') := by
  obtain ⟨front', last', hsplit, -, hparts⟩ := Text.exists_splitOn_eq_concat '/' text
  obtain ⟨rfl, hlast⟩ := List.append_inj' (hsplit.symm.trans h) rfl
  obtain rfl : last' = last := by simpa using hlast
  rcases hparts with ⟨hnil, rfl⟩ | ⟨hne, rfl⟩
  · exact ⟨fun _ => rfl, fun _ h => absurd hnil h⟩
  · constructor
    · intro hlast
      obtain ⟨c, rest, rfl⟩ := List.exists_cons_of_ne_nil hlast
      simp [List.getLast?_cons]
    · rintro rfl -
      simp

/-- What a steady path leads to is a normal form, and has a directory with a beginning again. -/
theorem Specifier.normal_of_steady {raw base : String} {s : Specifier}
    (h : Specifier.resolve raw base = .ok s) (hsettled : Settled (directoryStack base.toList))
    (hseated : Seated (directoryStack base.toList))
    (hsteady : Steady (Text.trim raw.toList) base) : s.Normal ∧ Seated s.directory := by
  have hnormal := Specifier.normal_iff (settled_of_resolve h hsettled)
  obtain ⟨-, htext⟩ := Specifier.resolve_eq_ok_iff.1 h
  have htext' : s.text.toList = resolvePath (Text.trim raw.toList) base.toList := by
    rw [htext, String.toList_ofList]
  unfold Steady at hsteady
  split at hsteady
  · next habs =>
    rw [resolvePath, if_pos habs] at htext'
    refine ⟨hnormal.2 ⟨by rw [htext', Text.trim_trim], .inl (by rwa [htext'])⟩, ?_⟩
    refine Seated.dropEmptyTail ?_
    rw [htext']
    rcases hsteady with hslash | ⟨o, rest, hrest⟩
    · obtain ⟨rest, hrest⟩ : ∃ rest, Text.trim raw.toList = '/' :: rest :=
        List.head?_eq_some_iff.1 hslash
      obtain ⟨t, more, hmore⟩ := List.exists_cons_of_ne_nil (Text.splitOn_ne_nil '/' rest)
      exact .inl ⟨(t :: more).dropLast.reverse, by
        rw [hrest, Text.splitOn, if_pos rfl, hmore, List.dropLast_cons_cons, List.reverse_cons]⟩
    · exact .inr (.inr ⟨o, (Text.splitOn '/' rest).dropLast.reverse, by
        rw [hrest, o.splitOn_location, List.dropLast_append_of_ne_nil (Text.splitOn_ne_nil _ _),
          List.reverse_append, List.reverse_reverse]⟩)
  · next habs =>
    obtain ⟨⟨last, hlast, hplain⟩, hstays⟩ := hsteady
    obtain ⟨front, hfront⟩ := List.getLast?_eq_some_iff.1 hlast
    have hstack := hseated.walk hstays hfront
    generalize hbelow : resolveSegments (directoryStack base.toList) front = below at hstack
    have hwalk : resolveSegments (directoryStack base.toList)
        (relativeSegments (Text.trim raw.toList)) = last :: below := by
      rw [hfront, resolveSegments_append, hbelow]
      exact pushSegment_plain hplain _
    have hsplit : Text.splitOn '/' s.text.toList = (last :: below).reverse := by
      have hslash : ∀ t ∈ last :: below, '/' ∉ t := by
        rw [← hwalk]
        exact fun t => noSlash_of_mem_resolveSegments (fun t => noSlash_of_mem_directoryStack)
          fun t => noSlash_of_mem_relativeSegments
      have hresult : resolvePath (Text.trim raw.toList) base.toList = stackText (last :: below) := by
        rw [resolvePath, if_neg habs, ← hwalk]
        rfl
      rw [htext', hresult, splitOn_stackText hslash, if_neg (List.cons_ne_nil _ _)]
    have hanchored : s.Anchored := hstack.anchored_cons hplain hsplit
    refine ⟨hnormal.2 ⟨Text.trim_eq_self_iff.2 ⟨isBlank_head?_of_anchored hanchored, ?_⟩, hanchored⟩,
      ?_⟩
    · -- The text ends as the path does, which is trimmed.
      have hpath := (Text.trim_eq_self_iff.1 (Text.trim_trim raw.toList)).2
      obtain ⟨before, hbefore⟩ := List.dropWhile_suffix (l := Text.splitOn '/' (Text.trim raw.toList))
        (· = [])
      change before ++ relativeSegments (Text.trim raw.toList) = _ at hbefore
      rw [hfront, ← List.append_assoc] at hbefore
      rw [List.reverse_cons] at hsplit
      by_cases hnil : last = []
      · rw [(getLast?_of_splitOn hsplit).2 hnil (by simpa using hstack.ne_nil)]
        rintro c ⟨⟩
        decide
      · rw [(getLast?_of_splitOn hsplit).1 hnil, ← (getLast?_of_splitOn hbefore.symm).1 hnil]
        exact hpath
    · have hdirectory : s.directory = dropEmptyTail below := by
        rw [Specifier.directory, hsplit]
        simp
      rw [hdirectory]
      exact hstack.dropEmptyTail

/-- In a chain by steady paths all specifiers are normal forms. -/
theorem Chain.normal_and_seated {s : Specifier} (h : Chain Steady s) :
    s.Normal ∧ Seated s.directory := by
  have hpage : Seated [Segment.current] := .inr (.inl ⟨.page, ⟨[], rfl, by simp⟩, trivial⟩)
  induction h with
  | entry h hs =>
    exact Specifier.normal_of_steady (Specifier.resolve_of_parse hs) settled_page hpage h
  | imported hs hl h ht ih =>
    refine Specifier.normal_of_steady ht ?_ ?_ h
    · rw [directoryStack_of_mem_plan hl]
      exact Specifier.settled_directory hs.settled
    · rw [directoryStack_of_mem_plan hl]
      exact ih.2

/-- An entry is never empty, and it is a normal form unless it ends with a blank. Whatever is
imported in any chain, at whatever locations that are asked for, is a normal form exactly if it
begins as locations do and does not end with a blank. A chain by steady paths gives normal forms
only; other paths can lead to the empty text. -/
theorem normal_of_chain (s : Specifier) :
    (∀ raw, Specifier.parse raw = .ok s → s.text ≠ "" ∧
      (Specifier.parse s.text = .ok s ↔ Text.trim s.text.toList = s.text.toList)) ∧
    (Chain (fun _ _ => True) s →
      (s.text ≠ "" ∧ Specifier.parse s.text = .ok s ↔
        Text.trim s.text.toList = s.text.toList ∧ s.Anchored)) ∧
    (Chain Steady s → s.text ≠ "" ∧ Specifier.parse s.text = .ok s) := by
  refine ⟨fun raw h => ?_, fun h => Specifier.normal_iff h.settled, fun h => h.normal_and_seated.1⟩
  have hchain : Chain (fun _ _ => True) s := .entry trivial h
  have hnormal := Specifier.normal_iff hchain.settled
  have hanchored : s.Anchored := by
    obtain ⟨-, htext⟩ := Specifier.resolve_eq_ok_iff.1 (Specifier.resolve_of_parse h)
    rw [Specifier.Anchored, htext, String.toList_ofList]
    cases habs : isAbsolute (Text.trim raw.toList) with
    | true => exact .inl (by rwa [resolvePath, if_pos habs])
    | false => exact .inr (beginsWithDots_resolvePath habs)
  have hne : s.text ≠ "" := by
    intro hnil
    rw [Specifier.Anchored, hnil] at hanchored
    revert hanchored
    unfold BeginsWithDots
    decide
  exact ⟨hne, by simpa [Specifier.Normal, hne, hanchored] using hnormal⟩

/-- The entry `./a` and, from the file that it is probed at, the import `./b/c`. -/
theorem normal_of_probed_chain :
    Chain Steady ⟨"./b/c"⟩ ∧
      ((⟨"./b/c"⟩ : Specifier).text ≠ "" ∧ Specifier.parse "./b/c" = .ok ⟨"./b/c"⟩) := by
  have hstays : ∀ base : String, base.toList.head? = some '.' → ∀ path,
      ∀ (o : Origin) (rest : List Char), base.toList = o.location rest → ¬ o.Leaves rest path := by
    rintro base hbase path ⟨_ | _, host, hne, hslash⟩ rest hrest
    all_goals
      rw [hrest] at hbase
      exact absurd (Option.some.inj hbase) (by decide)
  have hentry : Chain Steady ⟨"./a"⟩ :=
    @Chain.entry _ "a" _ ⟨⟨['a'], by decide, by decide⟩, hstays _ (by decide) _⟩ (by decide)
  have hchain : Chain Steady ⟨"./b/c"⟩ :=
    @Chain.imported _ _ _ false "./b/c" "./a.ts" hentry (by decide)
      ⟨⟨['c'], by decide, by decide⟩, hstays _ (by decide) _⟩ (by decide)
  exact ⟨hchain, (normal_of_chain _).2.2 hchain⟩

/-- From a file below the root the path of the current directory gives the empty specifier. -/
example : Specifier.resolve "." "/a.ts" = .ok ⟨""⟩ := by
  decide

end ScriptLoader
