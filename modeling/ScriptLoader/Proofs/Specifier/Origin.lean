import Mathlib.Data.List.DropRight
import Mathlib.Data.List.Infix
import ScriptLoader.Specifier.Path

/-!
# Paths against web addresses

The scheme of a web address, the empty segment behind it and the host are segments like others: a
path that climbs past all directories of an address takes the host away, where the same path stays
at the root of a location without a host. Until then it stays on the origin of the address.

* `Climbs`: a path climbs higher than so many directories above where it starts.
* `Origin`, `Origin.directory`: scheme and host of an address, and its directory below the host.
* `Origin.Leaves`: a path climbs past the host. A segment `..` in the address itself stops it,
  unless a segment `.` stands behind that.
* `resolvePath_onOrigin`: a path that does not leave stays on the origin, and one that leaves goes
  on without the host.
-/

namespace ScriptLoader

/-! ## Climbing -/

/-- The segment is none of dots. It may be empty. -/
def Segment.isPlain (s : Segment) : Bool := s ≠ Segment.current && s ≠ Segment.parent

/-- Some beginning of the path leads up further than `room` directories and the names in it. -/
def Climbs (room : Nat) (path : List Segment) : Prop :=
  ∃ front, front <+: path ∧
    room + front.countP Segment.isPlain < front.count Segment.parent

theorem not_climbs_nil (room : Nat) : ¬ Climbs room [] := by
  rintro ⟨front, hfront, hcount⟩
  rw [List.prefix_nil.1 hfront] at hcount
  simp at hcount

/-- Whether a path climbs too high is told by its first segment and the rest of it. -/
theorem climbs_cons (room : Nat) (s : Segment) (path : List Segment) :
    Climbs room (s :: path) ↔ ∃ front, front <+: path ∧
      room + (s :: front).countP Segment.isPlain < (s :: front).count Segment.parent := by
  constructor
  · rintro ⟨front, hfront, hcount⟩
    rcases List.prefix_cons_iff.1 hfront with rfl | ⟨front, rfl, hrest⟩
    · simp at hcount
    · exact ⟨front, hrest, hcount⟩
  · rintro ⟨front, hfront, hcount⟩
    exact ⟨s :: front, List.cons_prefix_cons.2 ⟨rfl, hfront⟩, hcount⟩

theorem Climbs.append {room : Nat} {path : List Segment} (h : Climbs room path)
    (more : List Segment) : Climbs room (path ++ more) := by
  obtain ⟨front, hfront, hcount⟩ := h
  exact ⟨front, hfront.trans (List.prefix_append path more), hcount⟩

theorem climbs_current (room : Nat) (path : List Segment) :
    Climbs room (Segment.current :: path) ↔ Climbs room path := by
  have hdots : Segment.isPlain Segment.current = false ∧
      (Segment.current == Segment.parent) = false := by decide
  rw [climbs_cons]
  simp only [List.countP_cons, List.count_cons, hdots, Bool.false_eq_true, if_false, Nat.add_zero]
  rfl

theorem climbs_plain {s : Segment} (hs : s.isPlain = true) (room : Nat) (path : List Segment) :
    Climbs room (s :: path) ↔ Climbs (room + 1) path := by
  have hne : (s == Segment.parent) = false := by
    simp only [Segment.isPlain, Bool.and_eq_true, decide_eq_true_eq] at hs
    simpa using hs.2
  rw [climbs_cons]
  simp only [List.countP_cons, List.count_cons, hs, hne, Bool.false_eq_true, if_true, if_false,
    Nat.add_zero]
  refine exists_congr fun front => and_congr_right fun _ => ?_
  omega

theorem climbs_parent (room : Nat) (path : List Segment) :
    Climbs room (Segment.parent :: path) ↔ room = 0 ∨ Climbs (room - 1) path := by
  have hdots : Segment.isPlain Segment.parent = false := by decide
  rw [climbs_cons]
  simp only [List.countP_cons, List.count_cons, hdots, Bool.false_eq_true, if_false, beq_self_eq_true,
    if_true, Nat.add_zero]
  constructor
  · rintro ⟨front, hfront, hcount⟩
    by_cases hroom : room = 0
    · exact Or.inl hroom
    · exact Or.inr ⟨front, hfront, by omega⟩
  · rintro (rfl | ⟨front, hfront, hcount⟩)
    · exact ⟨[], List.nil_prefix, by simp⟩
    · exact ⟨front, hfront, by omega⟩

/-- A segment that is pushed is one of dots or a plain one. -/
theorem Segment.dots_or_plain (s : Segment) :
    s = Segment.current ∨ s = Segment.parent ∨ s.isPlain = true := by
  by_cases hc : s = Segment.current
  · exact .inl hc
  · by_cases hp : s = Segment.parent
    · exact .inr (.inl hp)
    · exact .inr (.inr (by simp [Segment.isPlain, hc, hp]))

/-! ## The stack below what a path pushes -/

theorem pushSegment_current (stack : List Segment) :
    pushSegment stack Segment.current = stack := by
  rw [pushSegment, if_neg fun h => absurd h.1 (by decide), if_pos rfl]

theorem pushSegment_plain {s : Segment} (hs : s.isPlain = true) (stack : List Segment) :
    pushSegment stack s = s :: stack := by
  simp only [Segment.isPlain, Bool.and_eq_true, decide_eq_true_eq] at hs
  rw [pushSegment, if_neg fun h => hs.2 h.1, if_neg hs.1]

/-- What is left of a stack is below the segment that is pushed, or is all there is. -/
theorem pushSegment_suffix (stack : List Segment) (s : Segment) :
    ∃ kept, kept <:+ stack ∧ (pushSegment stack s = kept ∨ pushSegment stack s = s :: kept) := by
  unfold pushSegment
  split
  · next h =>
    obtain ⟨rfl, -⟩ := h
    have hdrop : stack.dropWhile (· = Segment.current) <:+ stack := List.dropWhile_suffix _
    unfold climb
    split
    · exact ⟨[], List.nil_suffix, .inr rfl⟩
    · next t heq =>
      rw [heq] at hdrop
      split
      · next ht => exact ⟨[t], hdrop, .inl (by rw [ht])⟩
      · exact ⟨[], List.nil_suffix, .inl rfl⟩
    · next t rest _ heq =>
      rw [heq] at hdrop
      exact ⟨rest, (List.suffix_cons t rest).trans hdrop, .inl rfl⟩
  · split
    · exact ⟨stack, List.suffix_rfl, .inl rfl⟩
    · exact ⟨stack, List.suffix_rfl, .inr rfl⟩

/-- What a path leads to is a part of where it starts, and above it segments of the path. -/
theorem resolveSegments_suffix (stack path : List Segment) :
    ∃ above kept, resolveSegments stack path = above ++ kept ∧ kept <:+ stack ∧
      ∀ s ∈ above, s ∈ path := by
  suffices hwalk : ∀ above kept, kept <:+ stack → ∃ above' kept',
      resolveSegments (above ++ kept) path = above' ++ kept' ∧ kept' <:+ stack ∧
        ∀ s ∈ above', s ∈ above ∨ s ∈ path by
    obtain ⟨above, kept, heq, hkept, habove⟩ := hwalk [] stack List.suffix_rfl
    exact ⟨above, kept, heq, hkept, fun s hs => (habove s hs).resolve_left List.not_mem_nil⟩
  induction path with
  | nil => exact fun above kept hkept => ⟨above, kept, rfl, hkept, fun s hs => .inl hs⟩
  | cons s path ih =>
    intro above kept hkept
    obtain ⟨left, hleft, hpush⟩ := pushSegment_suffix (above ++ kept) s
    -- What is left reaches into the segments above, or into the part that is kept.
    obtain ⟨above', kept', rfl, hkept', habove'⟩ : ∃ above' kept', left = above' ++ kept' ∧
        kept' <:+ stack ∧ ∀ t ∈ above', t ∈ above := by
      rcases List.suffix_or_suffix_of_suffix hleft (List.suffix_append above kept) with h | ⟨x, rfl⟩
      · exact ⟨[], left, rfl, h.trans hkept, by simp⟩
      · obtain ⟨y, hy⟩ := hleft
        rw [← List.append_assoc] at hy
        obtain rfl := List.append_cancel_right hy
        exact ⟨x, kept, rfl, hkept, fun t ht => List.mem_append_right y ht⟩
    rcases hpush with hpush | hpush
    · obtain ⟨a, k, heq, hk, ha⟩ := ih above' kept' hkept'
      refine ⟨a, k, by rw [← heq, resolveSegments, List.foldl_cons, hpush]; rfl, hk, ?_⟩
      exact fun t ht => (ha t ht).imp (habove' t) (List.mem_cons_of_mem s)
    · obtain ⟨a, k, heq, hk, ha⟩ := ih (s :: above') kept' hkept'
      refine ⟨a, k, by rw [← heq, resolveSegments, List.foldl_cons, hpush]; rfl, hk, ?_⟩
      intro t ht
      rcases ha t ht with ha | ha
      · rcases List.mem_cons.1 ha with rfl | ha
        · exact .inr List.mem_cons_self
        · exact .inl (habove' t ha)
      · exact .inr (List.mem_cons_of_mem s ha)

theorem noSlash_of_mem_resolveSegments {stack path : List Segment}
    (hstack : ∀ s ∈ stack, '/' ∉ s) (hpath : ∀ s ∈ path, '/' ∉ s) {s : Segment}
    (hs : s ∈ resolveSegments stack path) : '/' ∉ s := by
  obtain ⟨above, kept, heq, hkept, habove⟩ := resolveSegments_suffix stack path
  rw [heq, List.mem_append] at hs
  exact hs.elim (fun hs => hpath s (habove s hs)) fun hs => hstack s (hkept.subset hs)

theorem dropEmptyTail_suffix (stack : List Segment) : dropEmptyTail stack <:+ stack := by
  fun_induction dropEmptyTail stack with
  | case1 => exact List.suffix_rfl
  | case2 s => exact List.suffix_rfl
  | case3 t rest ih => exact ih.trans (List.suffix_cons _ _)
  | case4 s t rest _ => exact List.suffix_rfl

theorem noSlash_of_mem_directoryStack {base : List Char} {s : Segment}
    (hs : s ∈ directoryStack base) : '/' ∉ s := by
  have hs' := (dropEmptyTail_suffix _).subset hs
  have hsplit : s ∈ (Text.splitOn '/' base).reverse := by
    split at hs'
    · exact hs'
    · exact List.mem_of_mem_drop hs'
  exact Text.notMem_of_mem_splitOn (List.mem_reverse.1 hsplit)

/-- The segments of a path that are pushed one by one. -/
def relativeSegments (path : List Char) : List Segment :=
  (Text.splitOn '/' path).dropWhile (· = [])

theorem noSlash_of_mem_relativeSegments {path : List Char} {s : Segment}
    (hs : s ∈ relativeSegments path) : '/' ∉ s :=
  Text.notMem_of_mem_splitOn ((List.dropWhile_suffix _).subset hs)

/-- A stack is read back from its text, except for the one without any segment. -/
theorem splitOn_stackText {stack : List Segment} (h : ∀ s ∈ stack, '/' ∉ s) :
    Text.splitOn '/' (stackText stack) =
      if stack = [] then [Segment.current] else stack.reverse := by
  unfold stackText
  split
  · rfl
  · next hne => exact Text.splitOn_joinWith (by simpa using hne) fun s hs => h s (by simpa using hs)

/-- Climbing from a stack takes one segment away above its lower part, and all `.` on top of it. -/
theorem climb_append {above below : List Segment} (hbelow : below ≠ [])
    (h : ∃ s ∈ above, s ≠ Segment.current) :
    climb (above ++ below) = (above.dropWhile (· = Segment.current)).tail ++ below := by
  have hne : above.dropWhile (· = Segment.current) ≠ [] := by
    obtain ⟨s, hs, hsc⟩ := h
    exact fun hnil => hsc (by simpa using List.dropWhile_eq_nil_iff.1 hnil s hs)
  obtain ⟨t, rest, hrest⟩ := List.exists_cons_of_ne_nil hne
  have hdrop : (above ++ below).dropWhile (· = Segment.current) = t :: (rest ++ below) := by
    rw [List.dropWhile_append, if_neg (by simp [hrest]), hrest, List.cons_append]
  obtain ⟨u, left, hleft⟩ := List.exists_cons_of_ne_nil (show rest ++ below ≠ [] by simp [hbelow])
  rw [climb, hdrop, hrest, List.tail_cons, hleft]

theorem climb_of_currents {above : List Segment} (h : ∀ s ∈ above, s = Segment.current)
    (below : List Segment) : climb (above ++ below) = climb below := by
  have hdrop : (above ++ below).dropWhile (· = Segment.current) =
      below.dropWhile (· = Segment.current) := by
    rw [List.dropWhile_append, if_pos]
    exact List.isEmpty_iff.2 (List.dropWhile_eq_nil_iff.2 fun s hs => by simpa using h s hs)
  rw [climb, climb, hdrop]

/-! ## Stopping segments -/

/-- Behind each segment `..` stands a segment `.`, so that climbing takes both away. -/
def Loose (dirs : List Segment) : Prop :=
  ∀ front back, dirs = front ++ Segment.parent :: back → back.head? = some Segment.current

/-- The number of segments of a directory that climbing takes away one by one. -/
def room (dirs : List Segment) : Nat := dirs.countP (· ≠ Segment.current)

/-- Below a segment `..` without a `.` behind it nothing is taken away. -/
theorem resolveSegments_stopped {above below : List Segment}
    (h : above.getLast? ≠ some Segment.current) (path : List Segment) :
    ∃ above', resolveSegments (above ++ Segment.parent :: below) path =
      above' ++ Segment.parent :: below := by
  induction path generalizing above with
  | nil => exact ⟨above, rfl⟩
  | cons s path ih =>
    have hpushed : ∀ above', pushSegment (above ++ Segment.parent :: below) s =
        above' ++ Segment.parent :: below → above'.getLast? ≠ some Segment.current →
        ∃ x, resolveSegments (above ++ Segment.parent :: below) (s :: path) =
          x ++ Segment.parent :: below := by
      intro above' hpush hlast
      obtain ⟨x, hx⟩ := ih hlast
      exact ⟨x, by rw [← hx, resolveSegments, List.foldl_cons, hpush]; rfl⟩
    have hcons : s ≠ Segment.current → (s :: above).getLast? ≠ some Segment.current := by
      intro hs
      cases above with
      | nil => simpa using hs
      | cons t above => rwa [List.getLast?_cons_cons]
    obtain rfl | rfl | hs := s.dots_or_plain
    · exact hpushed above (pushSegment_current _) h
    · cases above with
      | nil => exact hpushed [Segment.parent] rfl (by decide)
      | cons t above =>
        by_cases ht : t = Segment.parent
        · refine hpushed (Segment.parent :: t :: above) ?_ (hcons (by decide))
          rw [pushSegment, if_neg (by simp [ht]), if_neg (by decide)]
          rfl
        · -- The last of the segments above is none of `.`, so climbing stops in front of it.
          have hsome : ∃ s ∈ t :: above, s ≠ Segment.current := by
            obtain ⟨last, hlast⟩ : ∃ last, (t :: above).getLast? = some last :=
              ⟨_, List.getLast?_cons⟩
            exact ⟨last, List.mem_of_getLast? hlast, fun hc => h (hc ▸ hlast)⟩
          refine hpushed ((t :: above).dropWhile (· = Segment.current)).tail ?_ ?_
          · rw [pushSegment, if_pos ⟨rfl, by simpa using ht⟩]
            exact climb_append (by simp) hsome
          · intro hlast
            obtain ⟨x, hx⟩ := (List.tail_suffix _).trans
              (List.dropWhile_suffix (l := t :: above) (· = Segment.current))
            refine h ?_
            rw [← hx, List.getLast?_append, hlast]
            rfl
    · exact hpushed (s :: above) (pushSegment_plain hs _)
        (hcons fun hc => by rw [hc] at hs; revert hs; decide)

/-- An ordinary directory, without any `..` in it, is loose. -/
theorem loose_of_notMem {dirs : List Segment} (h : Segment.parent ∉ dirs) : Loose dirs := by
  rintro front back rfl
  exact absurd (List.mem_append_right front List.mem_cons_self) h

theorem Loose.getLast?_ne {dirs : List Segment} (h : Loose dirs) :
    dirs.getLast? ≠ some Segment.parent := by
  intro hlast
  obtain ⟨front, rfl⟩ := List.getLast?_eq_some_iff.1 hlast
  cases h front [] rfl

/-- A directory that is loose stays so with a name more. -/
theorem Loose.concat {dirs : List Segment} (h : Loose dirs) {s : Segment}
    (hs : s ≠ Segment.parent) : Loose (dirs ++ [s]) := by
  intro front back heq
  rcases List.eq_nil_or_concat back with rfl | ⟨back, t, rfl⟩
  · exact absurd (List.singleton_inj.1 (List.append_inj' heq rfl).2) hs
  · have heq' : dirs ++ [s] = (front ++ Segment.parent :: back) ++ [t] := by simpa using heq
    have hhead := h front back (List.append_inj' heq' rfl).1
    cases back with
    | nil => cases hhead
    | cons u back => exact hhead

/-- And with its last segments taken away, up to one that is no `.`. -/
theorem Loose.of_append {dirs above : List Segment} {s : Segment} (h : Loose (dirs ++ s :: above))
    (hs : s ≠ Segment.current) : Loose dirs := by
  intro front back heq
  have hhead := h front (back ++ s :: above) (by simp [heq])
  cases back with
  | nil => exact absurd (Option.some.inj hhead) hs
  | cons u back => exact hhead

/-- Climbing from a directory that is loose takes its last segment away that is no `.`. -/
theorem pushSegment_parent_of_loose {dirs lower : List Segment} {s : Segment}
    (hl : Loose (s :: dirs)) :
    pushSegment (dirs.reverse ++ s :: lower) Segment.parent =
      if room dirs = 0 then climb (s :: lower)
      else (dirs.reverse.dropWhile (· = Segment.current)).tail ++ s :: lower := by
  have hhead : (dirs.reverse ++ s :: lower).head? ≠ some Segment.parent := by
    have hlast := hl.getLast?_ne
    rcases List.eq_nil_or_concat dirs with rfl | ⟨front, last, rfl⟩
    · simpa using hlast
    · simpa [List.getLast?_cons] using hlast
  rw [pushSegment, if_pos ⟨rfl, hhead⟩]
  simp only [room, List.countP_eq_zero, decide_not, Bool.not_eq_true', decide_eq_false_iff_not,
    Decidable.not_not]
  split
  · next hroom => exact climb_of_currents (fun t ht => hroom t (List.mem_reverse.1 ht)) _
  · next hroom =>
    refine climb_append (by simp) ?_
    simpa using hroom

theorem room_concat {dirs : List Segment} {s : Segment} (hs : s ≠ Segment.current) :
    room (dirs ++ [s]) = room dirs + 1 := by
  simp [room, hs]

/-- The last segment of a directory that is no `.`. -/
theorem exists_last_of_room {dirs : List Segment} (h : room dirs ≠ 0) :
    ∃ front s dots, dirs = front ++ s :: dots ∧ s ≠ Segment.current ∧ room dirs = room front + 1 ∧
      (dirs.reverse.dropWhile (· = Segment.current)).tail = front.reverse := by
  have hne : dirs.reverse.dropWhile (· = Segment.current) ≠ [] := by
    intro hnil
    refine h (List.countP_eq_zero.2 fun s hs => ?_)
    simpa using List.dropWhile_eq_nil_iff.1 hnil s (List.mem_reverse.2 hs)
  obtain ⟨s, rest, hrest⟩ := List.exists_cons_of_ne_nil hne
  have hs : s ≠ Segment.current := by
    have := List.head_dropWhile_not (· = Segment.current) hne
    simpa [hrest] using this
  have hparts :
      dirs = rest.reverse ++ s :: (dirs.reverse.takeWhile (· = Segment.current)).reverse := by
    have := congrArg List.reverse
      (List.takeWhile_append_dropWhile (p := (· = Segment.current)) (l := dirs.reverse))
    rw [hrest] at this
    simpa using this.symm
  have hdots : room (dirs.reverse.takeWhile (· = Segment.current)).reverse = 0 := by
    refine List.countP_eq_zero.2 fun t ht => ?_
    simpa using List.mem_takeWhile_imp (List.mem_reverse.1 ht)
  refine ⟨rest.reverse, s, _, hparts, hs, ?_, by rw [hrest]; simp⟩
  have hcount : room dirs =
      room (rest.reverse ++ s :: (dirs.reverse.takeWhile (· = Segment.current)).reverse) :=
    congrArg room hparts
  rw [hcount, room, List.countP_append, List.countP_cons_of_pos (by simpa using hs)]
  simp only [room] at hdots ⊢
  omega

/-- Below a directory that is loose a path comes only by climbing further than the directory goes,
and then it goes on from there. -/
theorem resolveSegments_of_loose {dirs lower : List Segment} {s : Segment} (hl : Loose (s :: dirs))
    (path : List Segment) :
    (¬ Climbs (room dirs) path → ∃ dirs',
      resolveSegments (dirs.reverse ++ s :: lower) path = dirs' ++ s :: lower) ∧
    (Climbs (room dirs) path → ∃ front back,
      path = front ++ Segment.parent :: back ∧ ¬ Climbs (room dirs) front ∧
        resolveSegments (dirs.reverse ++ s :: lower) path =
          resolveSegments (climb (s :: lower)) back) := by
  induction path generalizing dirs with
  | nil => exact ⟨fun _ => ⟨_, rfl⟩, fun h => absurd h (not_climbs_nil _)⟩
  | cons t path ih =>
    -- One segment leads to a directory that is loose again.
    have hstep : ∀ dirs₁, Loose (s :: dirs₁) →
        pushSegment (dirs.reverse ++ s :: lower) t = dirs₁.reverse ++ s :: lower →
        (∀ q, Climbs (room dirs) (t :: q) ↔ Climbs (room dirs₁) q) →
        (¬ Climbs (room dirs) (t :: path) → ∃ dirs',
          resolveSegments (dirs.reverse ++ s :: lower) (t :: path) = dirs' ++ s :: lower) ∧
        (Climbs (room dirs) (t :: path) → ∃ front back,
          t :: path = front ++ Segment.parent :: back ∧ ¬ Climbs (room dirs) front ∧
            resolveSegments (dirs.reverse ++ s :: lower) (t :: path) =
              resolveSegments (climb (s :: lower)) back) := by
      intro dirs₁ hl₁ hpush hclimbs
      have hwalk : resolveSegments (dirs.reverse ++ s :: lower) (t :: path) =
          resolveSegments (dirs₁.reverse ++ s :: lower) path := by
        rw [resolveSegments, List.foldl_cons, hpush]
        rfl
      rw [hwalk, hclimbs]
      refine ⟨(ih hl₁).1, fun h => ?_⟩
      obtain ⟨front, back, rfl, hfront, hback⟩ := (ih hl₁).2 h
      exact ⟨t :: front, back, rfl, by rwa [hclimbs], hback⟩
    obtain rfl | rfl | ht := t.dots_or_plain
    · exact hstep dirs hl (pushSegment_current _) (climbs_current _)
    · by_cases hroom : room dirs = 0
      · have hclimbs : Climbs (room dirs) (Segment.parent :: path) :=
          (climbs_parent _ _).2 (.inl hroom)
        refine ⟨fun h => absurd hclimbs h, fun _ => ⟨[], path, rfl, not_climbs_nil _, ?_⟩⟩
        rw [resolveSegments, List.foldl_cons, pushSegment_parent_of_loose hl, if_pos hroom]
        rfl
      · obtain ⟨front, u, dots, rfl, hu, hfront, htail⟩ := exists_last_of_room hroom
        refine hstep front ?_ ?_ fun q => ?_
        · have hparts : Loose ((s :: front) ++ u :: dots) := hl
          exact hparts.of_append hu
        · rw [pushSegment_parent_of_loose hl, if_neg hroom, htail]
        · rw [climbs_parent, hfront]
          simp
    · have hne : t ≠ Segment.current ∧ t ≠ Segment.parent := by
        simpa [Segment.isPlain] using ht
      refine hstep (dirs ++ [t]) (hl.concat hne.2) ?_ fun q => ?_
      · rw [pushSegment_plain ht]
        simp
      · rw [climbs_plain ht, room_concat hne.1]

/-! ## Web addresses -/

/-- The scheme of a web address, as a segment. -/
def webScheme (secure : Bool) : Segment := if secure then "https:".toList else "http:".toList

/-- Scheme and host of a web address. -/
structure Origin where
  secure : Bool
  host : Segment
  host_ne_nil : host ≠ []
  noSlash : '/' ∉ host

/-- The directory below the host that the rest of an address behind the host is in. -/
def directoryBelow (rest : List Char) : List Segment :=
  (Text.splitOn '/' rest).dropLast.rdropWhile (· = [])

namespace Origin

variable (o : Origin)

def scheme : Segment := webScheme o.secure

/-- The reversed segments of the origin. -/
def stack : List Segment := [o.host, [], o.scheme]

def text : List Char := o.scheme ++ '/' :: '/' :: o.host

/-- An address on the origin. -/
def location (rest : List Char) : List Char := o.text ++ '/' :: rest

/-- The address begins with the origin and a slash. -/
def Has (address : List Char) : Prop := o.text ++ ['/'] <+: address

/-- A path leads up past the host: it climbs further than the directory of the address goes, and no
`..` in the address itself stops it there. -/
def Leaves (rest path : List Char) : Prop :=
  Loose (o.host :: directoryBelow rest) ∧
    Climbs (room (directoryBelow rest)) (relativeSegments path)

theorem noSlash_scheme : '/' ∉ o.scheme := by
  unfold scheme webScheme
  split <;> decide

theorem splitOn_location (rest : List Char) :
    Text.splitOn '/' (o.location rest) = o.stack.reverse ++ Text.splitOn '/' rest := by
  have hlocation : o.location rest = o.scheme ++ '/' :: ([] ++ '/' :: (o.host ++ '/' :: rest)) := by
    simp [location, text]
  rw [hlocation, Text.splitOn_append o.noSlash_scheme, Text.splitOn_append List.not_mem_nil,
    Text.splitOn_append o.noSlash]
  rfl

end Origin

/-- Empty segments on top of a stack are dropped down to one that is not empty. -/
theorem dropEmptyTail_append {s : Segment} (hs : s ≠ []) (above lower : List Segment) :
    dropEmptyTail (above ++ s :: lower) = above.dropWhile (· = []) ++ s :: lower := by
  induction above with
  | nil =>
    cases lower with
    | nil => rfl
    | cons t lower => simp [dropEmptyTail, hs]
  | cons t above ih =>
    obtain ⟨u, rest, hrest⟩ := List.exists_cons_of_ne_nil
      (show above ++ s :: lower ≠ [] by simp)
    rw [List.cons_append, hrest, dropEmptyTail, ← hrest, ih]
    by_cases ht : t = [] <;> simp [ht]

/-- The directory of an address is the origin and the directory below it. -/
theorem directoryStack_location (o : Origin) (rest : List Char) :
    directoryStack (o.location rest) = (directoryBelow rest).reverse ++ o.stack := by
  obtain ⟨init, last, hinit⟩ : ∃ init last, Text.splitOn '/' rest = init ++ [last] := by
    rcases List.eq_nil_or_concat (Text.splitOn '/' rest) with h | ⟨init, last, h⟩
    · exact absurd h (Text.splitOn_ne_nil _ _)
    · exact ⟨init, last, by rw [h, List.concat_eq_append]⟩
  have hdrop : dropEmptyTail (init.reverse ++ o.stack) =
      init.reverse.dropWhile (· = []) ++ o.stack :=
    dropEmptyTail_append o.host_ne_nil init.reverse [[], o.scheme]
  have hreverse : (Text.splitOn '/' (o.location rest)).reverse =
      last :: (init.reverse ++ o.stack) := by
    simp [o.splitOn_location, hinit]
  simp only [directoryStack, directoryBelow, hreverse, hinit, List.dropLast_concat,
    List.rdropWhile, List.reverse_reverse]
  split
  · next hslash =>
    obtain ⟨front, hfront⟩ := List.getLast?_eq_some_iff.1 hslash
    rw [hfront, Text.splitOn_concat, List.reverse_append] at hreverse
    obtain rfl : [] = last := by simpa using congrArg List.head? hreverse
    exact dropEmptyTail_append o.host_ne_nil ([] :: init.reverse) [[], o.scheme]
  · exact hdrop

namespace Origin

variable (o : Origin) {rest path : List Char}

theorem resolvePath_location (hpath : isAbsolute path = false) :
    resolvePath path (o.location rest) = stackText
      (resolveSegments ((directoryBelow rest).reverse ++ o.stack) (relativeSegments path)) := by
  rw [resolvePath, if_neg (by simp [hpath]), directoryStack_location]
  rfl

/-- A path whose beginnings do not climb past the host leaves the origin below what it leads to. -/
theorem resolveSegments_stays {segments : List Segment}
    (h : Loose (o.host :: directoryBelow rest) → ¬ Climbs (room (directoryBelow rest)) segments) :
    ∃ above, resolveSegments ((directoryBelow rest).reverse ++ o.stack) segments =
      above ++ o.stack := by
  by_cases hl : Loose (o.host :: directoryBelow rest)
  · exact (resolveSegments_of_loose hl segments).1 (h hl)
  · obtain ⟨front, back, hparts, hback⟩ : ∃ front back,
        o.host :: directoryBelow rest = front ++ Segment.parent :: back ∧
          back.head? ≠ some Segment.current := by
      simpa only [Loose, not_forall, exists_prop] using hl
    have hlast : back.reverse.getLast? ≠ some Segment.current := by simpa using hback
    obtain ⟨above, habove⟩ := resolveSegments_stopped hlast segments
    have hstack : (directoryBelow rest).reverse ++ o.stack =
        back.reverse ++ Segment.parent :: (front.reverse ++ [[], o.scheme]) := by
      have := congrArg (fun l => l.reverse ++ [[], o.scheme]) hparts
      simpa [stack] using this
    rw [hstack, habove]
    -- The host is the segment that stops the path, or it is below that.
    cases front with
    | nil =>
      obtain ⟨hhost, -⟩ := List.cons.inj hparts
      exact ⟨above, by simp [stack, hhost]⟩
    | cons t front =>
      obtain ⟨rfl, -⟩ := List.cons.inj hparts
      exact ⟨above ++ Segment.parent :: front.reverse, by simp [stack]⟩

theorem stackText_append_stack (above : List Segment) :
    stackText (above ++ o.stack) = o.text ∧ above = [] ∨ o.Has (stackText (above ++ o.stack)) := by
  have hjoin : ∀ s ss, Text.joinWith '/' ([o.scheme, [], o.host] ++ s :: ss) =
      o.text ++ '/' :: Text.joinWith '/' (s :: ss) := by
    intro s ss
    simp [Text.joinWith, text]
  have hreverse : (above ++ o.stack).reverse = [o.scheme, [], o.host] ++ above.reverse := by
    simp [stack]
  rw [stackText, if_neg (by simp [stack]), hreverse]
  rcases List.eq_nil_or_concat above with rfl | ⟨front, s, rfl⟩
  · exact .inl ⟨by simp [Text.joinWith, text], rfl⟩
  · right
    rw [List.concat_eq_append, List.reverse_append, List.reverse_singleton, List.singleton_append,
      hjoin]
    exact ⟨_, by rw [List.append_assoc, List.singleton_append]⟩

/-- The third segment of what a path leads to from above the host is one of the path. -/
theorem mem_of_reverse_above_host {host : Segment} {segments later : List Segment}
    (h : (resolveSegments (climb o.stack) segments).reverse = o.scheme :: [] :: host :: later) :
    host ∈ segments := by
  obtain ⟨above, kept, heq, hkept, habove⟩ := resolveSegments_suffix (climb o.stack) segments
  have hclimb : (climb o.stack).length ≤ 2 := by
    unfold climb stack
    by_cases hcurrent : o.host = Segment.current
    · simp [hcurrent, show Segment.current ≠ [] by decide]
    · simp [hcurrent]
  have hlength : kept.reverse.length ≤ 2 := by
    rw [List.length_reverse]
    exact hkept.length_le.trans hclimb
  rw [heq, List.reverse_append] at h
  -- At most the first two segments are left of where the path starts.
  obtain ⟨k, hk⟩ : ∃ k, above.reverse = k ++ host :: later := by
    have hdrop := congrArg (List.drop kept.reverse.length) h
    rw [List.drop_left] at hdrop
    generalize kept.reverse.length = n at hdrop hlength
    match n, hlength with
    | 0, _ => exact ⟨[o.scheme, []], by simpa using hdrop⟩
    | 1, _ => exact ⟨[[]], by simpa using hdrop⟩
    | 2, _ => exact ⟨[], by simpa using hdrop⟩
  exact habove host (List.mem_reverse.1 (by simp [hk]))

/-- What begins with the origin splits into its segments and more of them. -/
theorem splitOn_of_text_or_has {address : List Char} (h : address = o.text ∨ o.Has address) :
    ∃ later, Text.splitOn '/' address = o.scheme :: [] :: o.host :: later := by
  rcases h with rfl | ⟨rest, rfl⟩
  · refine ⟨[], ?_⟩
    have htext : o.text = o.scheme ++ '/' :: ([] ++ '/' :: o.host) := rfl
    rw [htext, Text.splitOn_append o.noSlash_scheme, Text.splitOn_append List.not_mem_nil,
      Text.splitOn_of_notMem o.noSlash]
  · refine ⟨Text.splitOn '/' rest, ?_⟩
    have hlocation : o.text ++ ['/'] ++ rest = o.location rest := by simp [location]
    rw [hlocation, splitOn_location]
    rfl

end Origin

/-- A path against a web address that does not climb past the host stays on the origin of the
address. A slash is behind the origin then unless the path takes all segments below the host away,
and always if the path ends with a name. Where a path climbs past the host, the rest of it goes on
from the scheme alone, so that the result is on another host, or on none, unless the path itself
names the same host again. -/
theorem resolvePath_onOrigin (o : Origin) (rest path : List Char)
    (hpath : isAbsolute path = false) :
    (¬ o.Leaves rest path →
      (resolvePath path (o.location rest) = o.text ∨ o.Has (resolvePath path (o.location rest))) ∧
      ∀ s, (relativeSegments path).getLast? = some s → s.isPlain = true →
        o.Has (resolvePath path (o.location rest))) ∧
    (o.Leaves rest path →
      ∃ front back, relativeSegments path = front ++ Segment.parent :: back ∧
        ¬ Climbs (room (directoryBelow rest)) front ∧
        resolvePath path (o.location rest) = stackText (resolveSegments (climb o.stack) back) ∧
        (o.host ∉ back → resolvePath path (o.location rest) ≠ o.text ∧
          ¬ o.Has (resolvePath path (o.location rest)))) := by
  rw [o.resolvePath_location hpath]
  constructor
  · intro hstays
    have hclimbs : Loose (o.host :: directoryBelow rest) →
        ¬ Climbs (room (directoryBelow rest)) (relativeSegments path) :=
      fun hl hc => hstays ⟨hl, hc⟩
    refine ⟨?_, fun s hs hplain => ?_⟩
    · obtain ⟨above, habove⟩ := o.resolveSegments_stays hclimbs
      rw [habove]
      exact (o.stackText_append_stack above).imp And.left id
    · obtain ⟨front, hfront⟩ := List.getLast?_eq_some_iff.1 hs
      have hfrontClimbs : Loose (o.host :: directoryBelow rest) →
          ¬ Climbs (room (directoryBelow rest)) front :=
        fun hl hc => hclimbs hl (hfront ▸ hc.append [s])
      obtain ⟨above, habove⟩ := o.resolveSegments_stays hfrontClimbs
      have hlast : resolveSegments ((directoryBelow rest).reverse ++ o.stack)
          (relativeSegments path) = (s :: above) ++ o.stack := by
        rw [hfront, resolveSegments, List.foldl_concat, ← resolveSegments, habove,
          pushSegment_plain hplain]
        rfl
      rw [hlast]
      exact (o.stackText_append_stack (s :: above)).resolve_left fun h => by cases h.2
  · rintro ⟨hl, hc⟩
    obtain ⟨front, back, hparts, hfront, hwalk⟩ := (resolveSegments_of_loose hl _).2 hc
    have hwalk' : resolveSegments ((directoryBelow rest).reverse ++ o.stack)
        (relativeSegments path) = resolveSegments (climb o.stack) back := hwalk
    rw [hwalk']
    refine ⟨front, back, hparts, hfront, rfl, fun hhost => not_or.1 fun hback => hhost ?_⟩
    obtain ⟨later, hlater⟩ := o.splitOn_of_text_or_has hback
    have hslash : ∀ s ∈ resolveSegments (climb o.stack) back, '/' ∉ s := by
      rw [← hwalk', ← directoryStack_location]
      exact fun s => noSlash_of_mem_resolveSegments (fun s => noSlash_of_mem_directoryStack)
        fun s => noSlash_of_mem_relativeSegments
    rw [splitOn_stackText hslash] at hlater
    split at hlater
    · simp at hlater
    · exact o.mem_of_reverse_above_host hlater

/-- From a file directly below the host the path `../c` leads to the host `c`. -/
theorem resolvePath_past_host :
    Origin.Leaves ⟨true, ['h'], by decide, by decide⟩ ['a'] "../c".toList ∧
      ∃ front back, relativeSegments "../c".toList = front ++ Segment.parent :: back ∧
        ¬ Climbs (room (directoryBelow ['a'])) front ∧
        resolvePath "../c".toList "https://h/a".toList =
          stackText (resolveSegments (climb [['h'], [], "https:".toList]) back) ∧
        (['h'] ∉ back → resolvePath "../c".toList "https://h/a".toList ≠ "https://h".toList ∧
          ¬ Origin.Has ⟨true, ['h'], by decide, by decide⟩
            (resolvePath "../c".toList "https://h/a".toList)) := by
  have hleaves : Origin.Leaves ⟨true, ['h'], by decide, by decide⟩ ['a'] "../c".toList :=
    ⟨loose_of_notMem (by decide), [Segment.parent], by decide, by decide⟩
  exact ⟨hleaves, (resolvePath_onOrigin ⟨true, ['h'], by decide, by decide⟩ ['a'] "../c".toList
    (by decide)).2 hleaves⟩

example : resolvePath "../c".toList "https://h/a".toList = "https://c".toList := by
  decide

end ScriptLoader
