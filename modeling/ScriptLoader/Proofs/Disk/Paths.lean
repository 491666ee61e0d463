import Mathlib.Data.List.Basic
import ScriptLoader.Disk.Path
import ScriptLoader.Proofs.Specifier.Routes

/-!
# Clean paths and their routes

Cleaning a path reads its text as a route: pushing segments on a stack is not changed by what
cancels in them, so only the route that is left counts. A relative path keeps the climbs of its
route, and an absolute one forgets them, as the root is its own parent.

* `FilePath.ofText_eq`: the clean path of a text is its route.
* `FilePath.ofText_text`: cleaning the text of a clean path changes nothing.
* `FilePath.ofText_joinText`: names joined to a clean path follow its segments.
-/

namespace ScriptLoader

/-! ## Routes of written paths -/

namespace Route

theorem step_nil (r : Route) : r.step [] = r := by
  rw [step, dif_neg fun h => h.ne_nil rfl, if_neg (by decide)]

theorem reduce_eq_of_isName {names : List Segment} (h : ∀ s ∈ names, s.IsName) :
    reduce names = ⟨0, names, h⟩ := by
  have hroute := reduce_segments ⟨0, names, h⟩
  rwa [segments, List.replicate_zero, List.nil_append] at hroute

/-- Empty segments lead nowhere. -/
theorem reduce_filter (path : List Segment) : reduce (path.filter (· ≠ [])) = reduce path := by
  induction path with
  | nil => rfl
  | cons s path ih =>
    by_cases hs : s = []
    · rw [hs, List.filter_cons_of_neg (by simp), ih, reduce_cons, step_nil]
    · rw [List.filter_cons_of_pos (by simpa using hs), reduce_cons, reduce_cons, ih]

end Route

namespace FilePath

variable {absolute : Bool} {stack : List String} {path names : List Segment}

/-! ## Pushing segments -/

theorem push_nil : push absolute stack (String.ofList []) = stack := by
  unfold push
  rw [if_pos (Or.inl rfl)]

theorem push_current : push absolute stack (String.ofList Segment.current) = stack := by
  unfold push
  rw [if_pos (Or.inr (by rfl))]

theorem push_name {s : Segment} (hs : s.IsName) :
    push absolute stack (String.ofList s) = String.ofList s :: stack := by
  have hskip : ¬ (String.ofList s = "" ∨ String.ofList s = ".") := by
    rintro (h | h)
    · exact hs.ne_nil (String.ofList_injective h)
    · exact hs.ne_current (String.ofList_injective h)
  have hparent : String.ofList s ≠ parentSegment := fun h =>
    hs.ne_parent (String.ofList_injective h)
  unfold push
  rw [if_neg hskip, if_neg hparent]

theorem push_parent_of_name {s : Segment} (hs : s.IsName) :
    push absolute (String.ofList s :: stack) (String.ofList Segment.parent) = stack := by
  have htop : String.ofList s ≠ parentSegment := fun h => hs.ne_parent (String.ofList_injective h)
  unfold push
  rw [if_neg (by decide), if_pos (by rfl)]
  exact if_neg htop

theorem foldl_push_names (h : ∀ s ∈ names, s.IsName) :
    (names.map String.ofList).foldl (push absolute) stack =
      (names.map String.ofList).reverse ++ stack := by
  induction names generalizing stack with
  | nil => rfl
  | cons s names ih =>
    obtain ⟨hs, hnames⟩ := List.forall_mem_cons.1 h
    rw [List.map_cons, List.foldl_cons, push_name hs, ih hnames, List.reverse_cons,
      List.append_assoc, List.singleton_append]

/-- Climbs at the beginning: the root has none, and a relative path keeps them. -/
theorem foldl_push_climbs (n : Nat) :
    ((List.replicate n Segment.parent).map String.ofList).foldl (push absolute) [] =
      if absolute then [] else (List.replicate n Segment.parent).map String.ofList := by
  induction n with
  | zero => cases absolute <;> rfl
  | succ n ih =>
    rw [List.replicate_succ', List.map_append, List.foldl_append, ih]
    cases absolute with
    | true => rfl
    | false =>
      cases n with
      | zero => rfl
      | succ n =>
        rw [if_neg Bool.false_ne_true, if_neg Bool.false_ne_true, ← List.map_append,
          ← List.replicate_succ']
        rfl

/-- What cancels in a path leaves nothing on the stack. -/
theorem foldl_push_of_cancels {rest : List Segment} (h : Cancels path rest) :
    (path.map String.ofList).foldl (push absolute) stack =
      (rest.map String.ofList).foldl (push absolute) stack := by
  cases h with
  | current front back =>
    simp only [List.map_append, List.map_cons, List.foldl_append, List.foldl_cons, push_current]
  | name front hs back =>
    simp only [List.map_append, List.map_cons, List.foldl_append, List.foldl_cons, push_name hs,
      push_parent_of_name hs]

theorem foldl_push_filter :
    ((path.filter (· ≠ [])).map String.ofList).foldl (push absolute) stack =
      (path.map String.ofList).foldl (push absolute) stack := by
  induction path generalizing stack with
  | nil => rfl
  | cons s path ih =>
    by_cases hs : s = []
    · rw [hs, List.filter_cons_of_neg (by simp), ih, List.map_cons, List.foldl_cons, push_nil]
    · rw [List.filter_cons_of_pos (by simpa using hs), List.map_cons, List.map_cons,
        List.foldl_cons, List.foldl_cons, ih]

/-- A path leaves on the stack what its route leaves there. -/
theorem foldl_push_reduce (h : ∀ s ∈ path, '/' ∉ s) :
    (path.map String.ofList).foldl (push absolute) stack =
      ((Route.reduce path).segments.map String.ofList).foldl (push absolute) stack := by
  have hkept : ∀ s ∈ path.filter (· ≠ []), s ≠ [] ∧ '/' ∉ s := fun s hs =>
    ⟨by simpa using (List.mem_filter.1 hs).2, h s (List.mem_filter.1 hs).1⟩
  have hroute := Route.cancels_reduce hkept
  rw [Route.reduce_filter] at hroute
  rw [← foldl_push_filter]
  generalize (Route.reduce path).segments = rest at hroute ⊢
  induction hroute with
  | refl => rfl
  | tail _ hstep ih => rw [ih, foldl_push_of_cancels hstep]

/-! ## Clean paths -/

/-- What a clean path keeps of a route. -/
def kept (absolute : Bool) (r : Route) : List Segment :=
  if absolute then r.names else r.segments

theorem foldl_push_segments (r : Route) :
    (r.segments.map String.ofList).foldl (push absolute) [] =
      ((kept absolute r).map String.ofList).reverse := by
  rw [Route.segments, List.map_append, List.foldl_append, foldl_push_climbs,
    foldl_push_names r.isName, kept]
  cases absolute <;> simp [Route.segments]

/-- The clean path of a text is its route. -/
theorem ofText_eq (text : String) :
    ofText text = ⟨text.toList.head? = some '/',
      (kept (text.toList.head? = some '/')
        (Route.reduce (Text.splitOn '/' text.toList))).map String.ofList⟩ := by
  rw [ofText, split, foldl_push_reduce fun _ hs => Text.notMem_of_mem_splitOn hs,
    foldl_push_segments, List.reverse_reverse]

theorem mem_kept {r : Route} {s : Segment} (hs : s ∈ kept absolute r) :
    s = Segment.parent ∨ s.IsName := by
  have hmem : s = Segment.parent ∨ s ∈ r.names := by
    cases absolute with
    | true => exact .inr hs
    | false => exact (List.mem_append.1 hs).imp List.eq_of_mem_replicate id
  exact hmem.imp_right (r.isName s)

theorem ne_nil_of_mem_kept {r : Route} {s : Segment} (hs : s ∈ kept absolute r) :
    s ≠ [] ∧ '/' ∉ s := by
  rcases mem_kept hs with rfl | hname
  · exact ⟨by decide, by decide⟩
  · exact ⟨hname.ne_nil, hname.noSlash⟩

/-! ## Texts of clean paths -/

theorem toList_intercalate (path : List Segment) :
    ("/".intercalate (path.map String.ofList)).toList = Text.joinWith '/' path := by
  induction path with
  | nil => rfl
  | cons s path ih =>
    cases path with
    | nil => simp [Text.joinWith]
    | cons t path =>
      rw [List.map_cons, List.map_cons, String.intercalate_cons_cons, String.toList_append,
        String.toList_append, ← List.map_cons, ih, Text.joinWith]
      simp

theorem toList_intercalate_strings (segments : List String) :
    ("/".intercalate segments).toList = Text.joinWith '/' (segments.map String.toList) := by
  rw [← toList_intercalate, List.map_map]
  simp

theorem split_intercalate {segments : List String} (hne : segments ≠ [])
    (h : ∀ s ∈ segments, '/' ∉ s.toList) : split ("/".intercalate segments) = segments := by
  rw [split, toList_intercalate_strings, Text.splitOn_joinWith (by simpa using hne)
    (List.forall_mem_map.2 h), List.map_map]
  simp

theorem joinWith_split (path : String) :
    Text.joinWith '/' ((split path).map String.toList) = path.toList := by
  rw [split, List.map_map]
  simp [Text.joinWith_splitOn]

theorem noSlash_of_mem_split {path s : String} (hs : s ∈ split path) : '/' ∉ s.toList := by
  obtain ⟨piece, hpiece, rfl⟩ := List.mem_map.1 hs
  rw [String.toList_ofList]
  exact Text.notMem_of_mem_splitOn hpiece

/-- The first of some segments, joined, are the beginning of all of them. -/
theorem joinWith_of_isPrefix {front path : List Segment} (h : front <+: path) :
    Text.joinWith '/' front <+: Text.joinWith '/' path := by
  induction front generalizing path with
  | nil => exact List.nil_prefix
  | cons s front ih =>
    obtain ⟨more, rfl⟩ := h
    cases front with
    | nil =>
      cases more with
      | nil => exact List.prefix_rfl
      | cons t more => exact List.prefix_append _ _
    | cons t front =>
      obtain ⟨rest, hrest⟩ := ih (List.prefix_append (t :: front) more)
      rw [List.cons_append] at hrest
      refine ⟨rest, ?_⟩
      rw [List.cons_append, List.cons_append, Text.joinWith, Text.joinWith, List.append_assoc,
        List.cons_append, hrest]

theorem mem_joinWith {c : Char} (hc : c ≠ '/') {path : List Segment}
    (h : c ∈ Text.joinWith '/' path) : ∃ s ∈ path, c ∈ s := by
  induction path with
  | nil => exact absurd h List.not_mem_nil
  | cons s path ih =>
    cases path with
    | nil => exact ⟨s, List.mem_cons_self, h⟩
    | cons t path =>
      rw [Text.joinWith, List.mem_append, List.mem_cons] at h
      rcases h with h | rfl | h
      · exact ⟨s, List.mem_cons_self, h⟩
      · exact absurd rfl hc
      · obtain ⟨piece, hpiece, hmem⟩ := ih h
        exact ⟨piece, List.mem_cons_of_mem _ hpiece, hmem⟩

/-- Joined segments begin as the first of them does. -/
theorem head?_joinWith {s : Segment} (hs : s ≠ []) (path : List Segment) :
    (Text.joinWith '/' (s :: path)).head? = s.head? := by
  obtain ⟨c, rest, rfl⟩ := List.exists_cons_of_ne_nil hs
  rw [Text.joinWith_cons_cons]
  rfl

/-- The characters of the text of a clean path. -/
theorem toList_text (absolute : Bool) (path : List Segment) :
    (text ⟨absolute, path.map String.ofList⟩).toList =
      if absolute then '/' :: Text.joinWith '/' path
      else if path = [] then Segment.current else Text.joinWith '/' path := by
  rw [← toList_intercalate]
  cases absolute with
  | true =>
    rw [text, if_pos rfl, if_pos rfl, String.toList_append]
    rfl
  | false => cases path <;> rfl

/-- The text of a clean path begins with a slash if the path is absolute, and is not empty. -/
theorem head?_text (absolute : Bool) {path : List Segment} (h : ∀ s ∈ path, s ≠ [] ∧ '/' ∉ s) :
    ∃ c, (text ⟨absolute, path.map String.ofList⟩).toList.head? = some c ∧
      (c = '/' ↔ absolute = true) := by
  rw [toList_text]
  cases absolute with
  | true => exact ⟨'/', rfl, by simp⟩
  | false =>
    cases path with
    | nil => exact ⟨'.', rfl, by decide⟩
    | cons s path =>
      obtain ⟨⟨hne, hslash⟩, -⟩ := List.forall_mem_cons.1 h
      obtain ⟨c, rest, rfl⟩ := List.exists_cons_of_ne_nil hne
      refine ⟨c, head?_joinWith hne path, iff_of_false ?_ (by decide)⟩
      rintro rfl
      exact hslash List.mem_cons_self

/-- The text of a clean path has the segments of the path, apart from dots that stay where they
are. -/
theorem reduce_text (absolute : Bool) {path : List Segment} (h : ∀ s ∈ path, s ≠ [] ∧ '/' ∉ s) :
    Route.reduce (Text.splitOn '/' (text ⟨absolute, path.map String.ofList⟩).toList) =
      Route.reduce path := by
  have hsplit : path ≠ [] → Text.splitOn '/' (Text.joinWith '/' path) = path := fun hne =>
    Text.splitOn_joinWith hne fun s hs => (h s hs).2
  rw [toList_text]
  by_cases hne : path = []
  · subst hne
    cases absolute <;> rfl
  · cases absolute with
    | true =>
      rw [if_pos rfl, Text.splitOn, if_pos rfl, Route.reduce_cons, Route.step_nil, hsplit hne]
    | false => rw [if_neg Bool.false_ne_true, if_neg hne, hsplit hne]

/-- Cleaning the text of a clean path changes nothing. -/
theorem ofText_text (source : String) : ofText (ofText source).text = ofText source := by
  rw [ofText_eq source]
  generalize Route.reduce (Text.splitOn '/' source.toList) = r
  generalize decide (source.toList.head? = some '/') = absolute
  obtain ⟨c, hc, habsolute⟩ := head?_text absolute fun _ hs => ne_nil_of_mem_kept (r := r) hs
  have hhead : decide ((text ⟨absolute, (kept absolute r).map String.ofList⟩).toList.head? =
      some '/') = absolute := by
    rw [hc]
    cases absolute <;> simp_all
  have hkept : kept absolute (Route.reduce (kept absolute r)) = kept absolute r := by
    cases absolute with
    | true => rw [kept, if_pos rfl, kept, if_pos rfl, Route.reduce_eq_of_isName r.isName]
    | false => rw [kept, if_neg Bool.false_ne_true, kept, if_neg Bool.false_ne_true,
        Route.reduce_segments]
  rw [ofText_eq, reduce_text absolute fun _ hs => ne_nil_of_mem_kept hs, hhead, hkept]

/-! ## Joining -/

theorem head?_joinText {base below : String} (hbase : base ≠ "")
    (hbelow : below.toList.head? ≠ some '/') :
    (joinText base below).toList.head? = base.toList.head? := by
  have hchars : base.toList ≠ [] := fun h => hbase (String.toList_injective h)
  rw [joinText, if_neg hbelow]
  split <;> simp only [String.toList_append, List.append_assoc,
    List.head?_append_of_ne_nil _ hchars]

/-- The segments of a joined path are those of both, apart from an empty one between them. -/
theorem exists_split_joinText {base below : String} (hbase : base ≠ "")
    (hbelow : below.toList.head? ≠ some '/') :
    ∃ front, split (joinText base below) = front ++ split below ∧
      (split base = front ∨ split base = front ++ [""]) := by
  rw [joinText, if_neg hbelow]
  by_cases hslash : base.toList.getLast? = some '/'
  · obtain ⟨front, hfront⟩ := List.getLast?_eq_some_iff.1 hslash
    refine ⟨(Text.splitOn '/' front).map String.ofList, ?_, .inr ?_⟩
    · rw [if_pos (Or.inr hslash), split, String.toList_append, hfront, List.append_assoc,
        List.singleton_append, Text.splitOn_append_cons, List.map_append, split]
    · rw [split, hfront, Text.splitOn_concat, List.map_append]
      rfl
  · refine ⟨split base, ?_, .inl rfl⟩
    rw [if_neg (by simp [hbase, hslash]), split, String.toList_append, String.toList_append,
      List.append_assoc, show "/".toList = ['/'] from rfl, List.singleton_append,
      Text.splitOn_append_cons, List.map_append, split, split]

/-- A relative path that is joined to another one is pushed on its segments. -/
theorem ofText_joinText {base below : String} (hbase : base ≠ "")
    (hbelow : below.toList.head? ≠ some '/') :
    ofText (joinText base below) = ⟨(ofText base).absolute, ((split below).foldl
      (push (ofText base).absolute) (ofText base).segments.reverse).reverse⟩ := by
  obtain ⟨front, hjoined, hsplit⟩ := exists_split_joinText hbase hbelow
  simp only [ofText, hjoined, head?_joinText hbase hbelow, List.foldl_append, List.reverse_reverse]
  rcases hsplit with hsplit | hsplit
  · rw [hsplit]
  · rw [hsplit, List.foldl_append, List.foldl_cons, List.foldl_nil]
    rw [show push (decide (base.toList.head? = some '/')) _ "" = _ from push_nil]

/-- Names that are joined to a clean path follow its segments. -/
theorem ofText_joinText_names (source : String) {names : List Segment}
    (h : ∀ s ∈ names, s.IsName) :
    ofText (joinText (ofText source).text (text ⟨false, names.map String.ofList⟩)) =
      ⟨(ofText source).absolute, (ofText source).segments ++ names.map String.ofList⟩ := by
  have hnames : ∀ s ∈ names, s ≠ [] ∧ '/' ∉ s := fun s hs => ⟨(h s hs).ne_nil, (h s hs).noSlash⟩
  have hbase : (ofText source).text ≠ "" := by
    rw [ofText_eq]
    obtain ⟨c, hc, -⟩ := head?_text (decide (source.toList.head? = some '/'))
      fun _ hs => ne_nil_of_mem_kept (r := Route.reduce (Text.splitOn '/' source.toList)) hs
    intro hnil
    rw [hnil] at hc
    cases hc
  have hbelow : (text ⟨false, names.map String.ofList⟩).toList.head? ≠ some '/' := by
    obtain ⟨c, hc, hslash⟩ := head?_text false hnames
    rw [hc]
    simpa using hslash
  rw [ofText_joinText hbase hbelow, ofText_text, split,
    foldl_push_reduce fun _ hs => Text.notMem_of_mem_splitOn hs, reduce_text false hnames,
    Route.reduce_eq_of_isName h]
  simp [Route.segments, foldl_push_names h]

end FilePath

end ScriptLoader
