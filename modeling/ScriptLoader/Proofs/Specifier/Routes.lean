import Mathlib.Data.List.TakeDrop
import Mathlib.Logic.Relation
import ScriptLoader.Specifier.Path

/-!
# Paths as routes from a directory

A path can be reduced before it is known where it starts: what is left of it goes up some
directories and then down along some names. From a directory it leads up first, past the names of
the directory and then past its beginning, and down along its own names from there.

* `Route`, `Cancels`: a reduced path, and one cancellation in a path. Every path without empty
  segments comes to one route and no other (`Route.reduce_eq_iff`).
* `Directory`, `Directory.follow`: the directory of a location, and where a route leads from it.
* `resolvePath_eq_follow`: a path resolved against a location is its route followed from the
  directory of the location.
-/

namespace ScriptLoader

/-! ## Routes -/

/-- The segment names something: it is neither empty nor one of the segments of dots. -/
structure Segment.IsName (s : Segment) : Prop where
  ne_nil : s ≠ []
  ne_current : s ≠ Segment.current
  ne_parent : s ≠ Segment.parent
  noSlash : '/' ∉ s

instance (s : Segment) : Decidable s.IsName :=
  decidable_of_iff (s ≠ [] ∧ s ≠ Segment.current ∧ s ≠ Segment.parent ∧ '/' ∉ s)
    ⟨fun ⟨h, hc, hp, hs⟩ => ⟨h, hc, hp, hs⟩, fun ⟨h, hc, hp, hs⟩ => ⟨h, hc, hp, hs⟩⟩

/-- A path that is reduced: up some directories, and then down along names. -/
@[ext] structure Route where
  ups : Nat
  names : List Segment
  isName : ∀ s ∈ names, s.IsName

def Route.segments (r : Route) : List Segment := List.replicate r.ups Segment.parent ++ r.names

/-- One cancellation: a segment for the current directory goes, or a name with the way back up. -/
inductive Cancels : List Segment → List Segment → Prop where
  | current (front back : List Segment) :
    Cancels (front ++ Segment.current :: back) (front ++ back)
  | name (front : List Segment) {s : Segment} (hs : s.IsName) (back : List Segment) :
    Cancels (front ++ s :: Segment.parent :: back) (front ++ back)

namespace Route

/-- A route with one segment more in front. -/
def step (s : Segment) (r : Route) : Route :=
  if hs : s.IsName then
    match r.ups with
    | 0 => ⟨0, s :: r.names, List.forall_mem_cons.2 ⟨hs, r.isName⟩⟩
    | ups + 1 => ⟨ups, r.names, r.isName⟩
  else if s = Segment.parent then ⟨r.ups + 1, r.names, r.isName⟩
  else r

/-- The route that is left of a path. -/
def reduce (path : List Segment) : Route := path.foldr step ⟨0, [], by simp⟩

@[simp] theorem reduce_cons (s : Segment) (path : List Segment) :
    reduce (s :: path) = (reduce path).step s := rfl

theorem step_current (r : Route) : r.step Segment.current = r := by
  rw [step, dif_neg fun h => h.ne_current rfl, if_neg (by decide)]

theorem step_parent (r : Route) :
    r.step Segment.parent = ⟨r.ups + 1, r.names, r.isName⟩ := by
  rw [step, dif_neg fun h => h.ne_parent rfl, if_pos rfl]

theorem step_name {s : Segment} (hs : s.IsName) (r : Route) :
    (r.step s).ups = r.ups - 1 ∧
      (r.step s).names = if r.ups = 0 then s :: r.names else r.names := by
  obtain ⟨ups, names, hnames⟩ := r
  rw [step, dif_pos hs]
  cases ups <;> simp

/-- A cancellation does not change what is left of a path. -/
theorem reduce_eq_of_cancels {path rest : List Segment} (h : Cancels path rest) :
    reduce path = reduce rest := by
  have hfront : ∀ {xs ys : List Segment}, reduce xs = reduce ys → ∀ front : List Segment,
      reduce (front ++ xs) = reduce (front ++ ys) := by
    intro xs ys heq front
    induction front with
    | nil => exact heq
    | cons s front ih => rw [List.cons_append, List.cons_append, reduce_cons, reduce_cons, ih]
  cases h with
  | current front back =>
    refine hfront ?_ front
    rw [reduce_cons, step_current]
  | name front hs back =>
    refine hfront ?_ front
    rw [reduce_cons, reduce_cons, step_parent, step, dif_pos hs]

theorem reduce_segments (r : Route) : reduce r.segments = r := by
  have hnames : ∀ {names : List Segment} (h : ∀ s ∈ names, s.IsName),
      reduce names = ⟨0, names, h⟩ := by
    intro names
    induction names with
    | nil => exact fun _ => rfl
    | cons s names ih =>
      intro h
      obtain ⟨hs, hrest⟩ := List.forall_mem_cons.1 h
      rw [reduce_cons, ih hrest, step, dif_pos hs]
  obtain ⟨ups, names, h⟩ := r
  induction ups with
  | zero => exact hnames h
  | succ ups ih =>
    rw [segments] at ih ⊢
    rw [List.replicate_succ, List.cons_append, reduce_cons, ih, step_parent]

/-- Cancelling leads to the route of a path whose segments are not empty. -/
theorem cancels_reduce {path : List Segment} (h : ∀ s ∈ path, s ≠ [] ∧ '/' ∉ s) :
    Relation.ReflTransGen Cancels path (reduce path).segments := by
  induction path with
  | nil => exact .refl
  | cons s path ih =>
    obtain ⟨⟨hne, hslash⟩, hpath⟩ := List.forall_mem_cons.1 h
    have hcons : Relation.ReflTransGen Cancels (s :: path) (s :: (reduce path).segments) := by
      refine Relation.ReflTransGen.lift (s :: ·) (fun _ _ hcancels => ?_) _ _ (ih hpath)
      obtain ⟨front, back⟩ | ⟨front, hs, back⟩ := hcancels
      · exact .current (s :: front) back
      · exact .name (s :: front) hs back
    refine hcons.trans ?_
    rw [reduce_cons]
    by_cases hs : s.IsName
    · obtain ⟨ups, names, hnames⟩ := reduce path
      rw [step, dif_pos hs]
      cases ups with
      | zero => exact .refl
      | succ ups => exact .single (.name [] hs _)
    · by_cases hparent : s = Segment.parent
      · rw [hparent, step_parent]
        exact .refl
      · have hcurrent : s = Segment.current := by
          by_contra hcurrent
          exact hs ⟨hne, hcurrent, hparent, hslash⟩
        rw [hcurrent, step_current]
        exact .single (.current [] _)

/-- A path without empty segments comes to its route, and to no other. -/
theorem reduce_eq_iff {path : List Segment} (h : ∀ s ∈ path, s ≠ [] ∧ '/' ∉ s) (r : Route) :
    reduce path = r ↔ Relation.ReflTransGen Cancels path r.segments := by
  constructor
  · rintro rfl
    exact cancels_reduce h
  · intro hr
    have hkept : ∀ {xs}, Relation.ReflTransGen Cancels path xs → reduce path = reduce xs := by
      intro xs hxs
      induction hxs with
      | refl => rfl
      | tail _ hstep ih => rw [ih, reduce_eq_of_cancels hstep]
    rw [hkept hr, reduce_segments]

end Route

/-! ## Directories -/

/-- What a directory begins with. -/
inductive Beginning where
  /-- The root: an empty segment. -/
  | root
  /-- The directory of the page: a segment `.`. -/
  | page
  /-- A directory so far above the one of the page, or that one without a mark. -/
  | above (n : Nat)
  deriving DecidableEq

def Beginning.segments : Beginning → List Segment
  | root => [[]]
  | page => [Segment.current]
  | above n => List.replicate n Segment.parent

/-- So many directories up; the root is its own parent. -/
def Beginning.climb : Beginning → Nat → Beginning
  | root, _ => root
  | page, 0 => page
  | page, k + 1 => above (k + 1)
  | above n, k => above (n + k)

@[simp] theorem Beginning.climb_zero (b : Beginning) : b.climb 0 = b := by
  cases b <;> rfl

theorem Beginning.climb_climb (b : Beginning) (i j : Nat) :
    (b.climb i).climb j = b.climb (i + j) := by
  cases b with
  | root => rfl
  | page =>
    cases i with
    | zero => rw [climb_zero, Nat.zero_add]
    | succ i =>
      change above (i + 1 + j) = page.climb (i + 1 + j)
      rw [Nat.add_right_comm]
      rfl
  | above n => simp only [climb, Nat.add_assoc]

/-- A directory: what it begins with, and names. -/
@[ext] structure Directory where
  beginning : Beginning
  names : List Segment
  isName : ∀ s ∈ names, s.IsName

namespace Directory

def segments (d : Directory) : List Segment := d.beginning.segments ++ d.names

/-- The directory as it is written; without any segment it is the one of the page. -/
def text (d : Directory) : List Char :=
  if d.segments = [] then Segment.current else Text.joinWith '/' d.segments

/-- The directory of a location: what stands in front of its last segment, which may be empty. More
than one slash may stand between the two. -/
def Holds (d : Directory) (location : List Char) : Prop :=
  ∃ blanks file, Text.splitOn '/' location =
    d.segments ++ List.replicate blanks [] ++ [file] ∧ (d.segments = [] → blanks = 0)

/-- Where a route leads: up past the last names, and where there are none left past the beginning,
and then down. -/
def follow (d : Directory) (r : Route) : Directory where
  beginning := d.beginning.climb (r.ups - d.names.length)
  names := d.names.take (d.names.length - r.ups) ++ r.names
  isName := by
    intro s hs
    rcases List.mem_append.1 hs with hs | hs
    · exact d.isName s (List.mem_of_mem_take hs)
    · exact r.isName s hs

/-! ## Following segment by segment -/

variable (d : Directory)

theorem beginning_follow (r : Route) :
    (d.follow r).beginning = d.beginning.climb (r.ups - d.names.length) := rfl

theorem names_follow (r : Route) :
    (d.follow r).names = d.names.take (d.names.length - r.ups) ++ r.names := rfl

theorem follow_current : d.follow (Route.reduce [Segment.current]) = d := by
  rw [Route.reduce_cons, Route.step_current]
  exact Directory.ext (by simp [follow, Route.reduce]) (by simp [follow, Route.reduce])

theorem follow_name {s : Segment} (hs : s.IsName) :
    (d.follow (Route.reduce [s])).beginning = d.beginning ∧
      (d.follow (Route.reduce [s])).names = d.names ++ [s] := by
  have hstep : Route.reduce [s] = ⟨0, [s], by simpa using hs⟩ := by
    rw [Route.reduce_cons, Route.step, dif_pos hs]
    rfl
  rw [hstep]
  simp [follow]

theorem follow_parent :
    (d.follow (Route.reduce [Segment.parent])).beginning =
        d.beginning.climb (1 - d.names.length) ∧
      (d.follow (Route.reduce [Segment.parent])).names = d.names.dropLast := by
  rw [Route.reduce_cons, Route.step_parent]
  simp [follow, Route.reduce, List.dropLast_eq_take]

/-- A route is followed by its first segment, and then by the rest of it. -/
theorem follow_step {s : Segment} (hs : s.IsName ∨ s = Segment.current ∨ s = Segment.parent)
    (r : Route) : d.follow (r.step s) = (d.follow (Route.reduce [s])).follow r := by
  rcases hs with hs | rfl | rfl
  · obtain ⟨hbeginning, hnames⟩ := d.follow_name hs
    obtain ⟨hups, hrest⟩ := Route.step_name hs r
    ext1
    · rw [beginning_follow, beginning_follow, hbeginning, hnames, hups, List.length_append,
        List.length_singleton]
      congr 1
      omega
    · rw [names_follow, names_follow, hnames, hups, hrest, List.length_append,
        List.length_singleton]
      split
      · next hnone => simp [hnone, List.take_of_length_le]
      · next hsome =>
        rw [List.take_append_of_le_length (by omega)]
        congr 2
        omega
  · rw [follow_current, Route.step_current]
  · obtain ⟨hbeginning, hnames⟩ := d.follow_parent
    rw [Route.step_parent]
    ext1
    · rw [beginning_follow, beginning_follow, hbeginning, hnames, Beginning.climb_climb,
        List.length_dropLast]
      congr 1
      dsimp only
      omega
    · rw [names_follow, names_follow, hnames, List.length_dropLast, List.dropLast_eq_take,
        List.take_take]
      congr 2
      dsimp only
      omega

/-- A segment for the parent directory takes one name away. -/
theorem pushSegment_parent_of_name {s : Segment} (hs : s.IsName) (stack : List Segment) :
    pushSegment (s :: stack) Segment.parent = stack := by
  have hhead : (s :: stack).head? ≠ some Segment.parent := by
    simpa using hs.ne_parent
  rw [pushSegment, if_pos ⟨rfl, hhead⟩, climb,
    List.dropWhile_cons_of_neg (by simpa using hs.ne_current)]
  cases stack with
  | nil => simp [hs.ne_nil]
  | cons t stack => rfl

/-- Without names, it climbs past the beginning. -/
theorem pushSegment_parent_of_beginning (b : Beginning) :
    pushSegment b.segments.reverse Segment.parent = (b.climb 1).segments.reverse := by
  cases b with
  | root => decide
  | page => decide
  | above n =>
    cases n with
    | zero => decide
    | succ n =>
      rw [Beginning.climb, Beginning.segments, Beginning.segments, List.reverse_replicate,
        List.reverse_replicate, List.replicate_succ, pushSegment, if_neg (by simp),
        if_neg (by decide)]
      rfl

/-- One segment that is pushed leads where it leads as a route. -/
theorem pushSegment_eq_follow {s : Segment}
    (hs : s.IsName ∨ s = Segment.current ∨ s = Segment.parent) :
    pushSegment d.segments.reverse s = (d.follow (Route.reduce [s])).segments.reverse := by
  rcases hs with hs | rfl | rfl
  · obtain ⟨hbeginning, hnames⟩ := d.follow_name hs
    rw [segments, segments, hbeginning, hnames]
    simp [pushSegment, hs.ne_parent, hs.ne_current]
  · rw [follow_current]
    simp [pushSegment, show Segment.current ≠ Segment.parent by decide]
  · obtain ⟨hbeginning, hnames⟩ := d.follow_parent
    rw [segments, segments, hbeginning, hnames, List.reverse_append, List.reverse_append]
    rcases List.eq_nil_or_concat d.names with hnil | ⟨front, last, hlast⟩
    · rw [hnil]
      exact pushSegment_parent_of_beginning d.beginning
    · have hname : last.IsName := d.isName last (by simp [hlast])
      rw [hlast]
      simp [pushSegment_parent_of_name hname]

/-- The segments of a path, pushed one by one, lead where its route leads. -/
theorem resolveSegments_eq_follow {path : List Segment} (h : ∀ s ∈ path, s ≠ [] ∧ '/' ∉ s) :
    resolveSegments d.segments.reverse path = (d.follow (Route.reduce path)).segments.reverse := by
  unfold resolveSegments
  induction path generalizing d with
  | nil =>
    have hstays : d.follow (Route.reduce []) = d :=
      Directory.ext (by simp [follow, Route.reduce]) (by simp [follow, Route.reduce])
    rw [hstays]
    rfl
  | cons s path ih =>
    obtain ⟨⟨hne, hslash⟩, hpath⟩ := List.forall_mem_cons.1 h
    have hs : s.IsName ∨ s = Segment.current ∨ s = Segment.parent := by
      by_contra hno
      simp only [not_or] at hno
      exact hno.1 ⟨hne, hno.2.1, hno.2.2, hslash⟩
    rw [List.foldl_cons, d.pushSegment_eq_follow hs, ih _ hpath, ← d.follow_step hs]
    rfl

end Directory

/-! ## Texts -/

/-- What is left of a stack when empty segments in front of it are dropped. -/
theorem dropEmptyTail_replicate {stack : List Segment} (hne : stack ≠ [])
    (h : stack = [[]] ∨ stack.head? ≠ some []) (blanks : Nat) :
    dropEmptyTail (List.replicate blanks [] ++ stack) = stack := by
  induction blanks with
  | zero =>
    obtain _ | ⟨s, _ | ⟨t, stack⟩⟩ := stack
    · exact absurd rfl hne
    · rfl
    · have hs : s ≠ [] := by simpa using h
      simp [dropEmptyTail, hs]
  | succ blanks ih =>
    obtain ⟨t, rest, hcons⟩ : ∃ t rest, List.replicate blanks [] ++ stack = t :: rest :=
      List.exists_cons_of_ne_nil (by simp [hne])
    rw [List.replicate_succ, List.cons_append, hcons, dropEmptyTail, if_pos rfl, ← hcons, ih]

namespace Directory

variable {d : Directory} {location : List Char}

/-- A directory ends with a name, or is a beginning alone; only the root ends with an empty
segment. -/
theorem head?_reverse_segments (d : Directory) :
    d.segments.reverse = [[]] ∨ d.segments.reverse.head? ≠ some [] := by
  rw [segments, List.reverse_append]
  rcases List.eq_nil_or_concat d.names with hnil | ⟨front, last, hlast⟩
  · rw [hnil]
    cases d.beginning with
    | root => exact .inl rfl
    | page => exact .inr (by decide)
    | above n =>
      rw [Beginning.segments, List.reverse_replicate]
      cases n <;> simp [List.replicate_succ, Segment.parent]
  · have hname : last.IsName := d.isName last (by simp [hlast])
    exact .inr (by simp [hlast, hname.ne_nil])

theorem noSlash_of_mem_segments {s : Segment} (hs : s ∈ d.segments) : '/' ∉ s := by
  rcases List.mem_append.1 hs with hs | hs
  · cases hd : d.beginning with
    | root | page => simp_all [Beginning.segments, Segment.current]
    | above n =>
      rw [hd] at hs
      rw [List.eq_of_mem_replicate hs]
      decide
  · exact (d.isName s hs).noSlash

theorem directoryStack_of_holds (h : d.Holds location) :
    directoryStack location = d.segments.reverse := by
  obtain ⟨blanks, file, hsplit, hblanks⟩ := h
  have hdrop : ∀ n, (d.segments = [] → n = 0) →
      dropEmptyTail (List.replicate n [] ++ d.segments.reverse) = d.segments.reverse := by
    intro n hn
    by_cases hnil : d.segments = []
    · rw [hnil, hn hnil]
      rfl
    · exact dropEmptyTail_replicate (by simpa using hnil) d.head?_reverse_segments n
  have hreverse : (Text.splitOn '/' location).reverse =
      file :: (List.replicate blanks [] ++ d.segments.reverse) := by
    simp [hsplit]
  simp only [directoryStack, hreverse]
  split
  · next hslash =>
    -- The last segment is the empty one behind the slash, so the directory is not.
    obtain ⟨front, hfront⟩ : ∃ front, location = front ++ ['/'] :=
      List.getLast?_eq_some_iff.1 hslash
    rw [hfront, Text.splitOn_concat] at hsplit
    obtain ⟨hsegments, hfile⟩ := List.append_inj' hsplit rfl
    have hsome : d.segments ≠ [] := by
      intro hnil
      rw [hnil, hblanks hnil] at hsegments
      exact Text.splitOn_ne_nil _ _ hsegments
    obtain rfl : [] = file := by simpa using hfile
    exact hdrop (blanks + 1) fun hnil => absurd hnil hsome
  · exact hdrop blanks hblanks

theorem stackText_reverse (d : Directory) : stackText d.segments.reverse = d.text := by
  simp [stackText, text]

/-- What a directory is written as is a directory. -/
theorem exists_splitOn_text (d : Directory) :
    ∃ e : Directory, Text.splitOn '/' d.text = e.segments := by
  unfold text
  split
  · exact ⟨⟨.page, [], by simp⟩, rfl⟩
  · next hne => exact ⟨d, Text.splitOn_joinWith hne fun s hs => noSlash_of_mem_segments hs⟩

end Directory

/-- A path whose segments are not empty does not stand for itself. -/
theorem isAbsolute_eq_false {path : List Char} (h : ∀ s ∈ Text.splitOn '/' path, s ≠ []) :
    isAbsolute path = false := by
  -- Each of the three begins with a segment that has no slash, and then with an empty one.
  have hnone : ∀ front ∈ [['/'], "http://".toList, "https://".toList],
      (Text.dropFront? front path).isSome = false := by
    intro front hfront
    rw [Option.isSome_eq_false_iff, Option.isNone_iff_eq_none, Option.eq_none_iff_forall_ne_some]
    intro rest hrest
    rw [Text.dropFront?_eq_some_iff] at hrest
    refine h [] ?_ rfl
    simp only [List.mem_cons, List.not_mem_nil, or_false] at hfront
    rcases hfront with rfl | rfl | rfl <;> simp [hrest, Text.splitOn]
  rw [isAbsolute, hnone _ (by simp), hnone _ (by simp), hnone _ (by simp)]
  rfl

/-- A path without empty segments, resolved against a location, is where its route leads from the
directory of the location; the path cancels to this route and to no other. What it is written as is
a directory again. -/
theorem resolvePath_eq_follow {d : Directory} {path base : List Char} (hbase : d.Holds base)
    (hpath : ∀ s ∈ Text.splitOn '/' path, s ≠ []) :
    ∃ r : Route,
      (∀ other : Route,
        Relation.ReflTransGen Cancels (Text.splitOn '/' path) other.segments ↔ other = r) ∧
      resolvePath path base = (d.follow r).text ∧
      ∃ e : Directory, Text.splitOn '/' (resolvePath path base) = e.segments := by
  have hsegments : ∀ s ∈ Text.splitOn '/' path, s ≠ [] ∧ '/' ∉ s := fun s hs =>
    ⟨hpath s hs, Text.notMem_of_mem_splitOn hs⟩
  have hkept : (Text.splitOn '/' path).dropWhile (· = []) = Text.splitOn '/' path := by
    obtain ⟨s, rest, hs⟩ := List.exists_cons_of_ne_nil (Text.splitOn_ne_nil '/' path)
    have hne : s ≠ [] := hpath s (by simp [hs])
    rw [hs, List.dropWhile_cons_of_neg (by simpa using hne)]
  have htext : resolvePath path base =
      (d.follow (Route.reduce (Text.splitOn '/' path))).text := by
    rw [resolvePath, isAbsolute_eq_false hpath, if_neg Bool.false_ne_true, hkept,
      Directory.directoryStack_of_holds hbase, d.resolveSegments_eq_follow hsegments,
      Directory.stackText_reverse]
  refine ⟨Route.reduce (Text.splitOn '/' path), fun other => ?_, htext, ?_⟩
  · rw [← Route.reduce_eq_iff hsegments other]
    exact eq_comm
  · rw [htext]
    exact Directory.exists_splitOn_text _

/-- The route `../../b/d` from the directory of `./a/x.ts`: one name up, one directory above the
page, and down from there. -/
theorem resolvePath_climbs_past_page :
    ∃ r : Route,
      (∀ other : Route,
        Relation.ReflTransGen Cancels (Text.splitOn '/' "../../b/./c/../d.ts".toList)
          other.segments ↔ other = r) ∧
      resolvePath "../../b/./c/../d.ts".toList "./a/x.ts".toList =
        (Directory.follow ⟨.page, ["a".toList], by decide⟩ r).text ∧
      ∃ e : Directory,
        Text.splitOn '/' (resolvePath "../../b/./c/../d.ts".toList "./a/x.ts".toList) =
          e.segments :=
  resolvePath_eq_follow ⟨0, "x.ts".toList, by decide, by decide⟩ (by decide)

example : resolvePath "../../b/./c/../d.ts".toList "./a/x.ts".toList = "../b/d.ts".toList := by
  decide

end ScriptLoader
