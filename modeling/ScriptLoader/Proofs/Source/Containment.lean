import ScriptLoader.Proofs.Disk.Paths
import ScriptLoader.Source.Directory

/-!
# Locations stay below the root

A location names a file below the root exactly if it is no address and no beginning of it climbs
more often than it names something. The file is the root followed by the names that are left of the
location, so that no location leads outside.

* `StaysBelow`: no beginning of a path leads above where the path starts. That is so exactly if the
  route of the path has no climbs (`Route.ups_eq_zero_iff`).
* `DirectorySource.FileBelow`: the file of a location, by the names that are left of it.
* `DirectorySource.pathOf_iff_staysBelow`: which locations have a file, and which file that is.
-/

namespace ScriptLoader

/-- No beginning of a path climbs more often than it names something. -/
def StaysBelow (path : List Segment) : Prop :=
  ∀ front, front <+: path →
    front.count Segment.parent ≤ front.countP fun s => decide s.IsName

/-- A route climbs as often as the worst beginning of its path does beyond the names in it. -/
theorem Route.ups_le_iff (path : List Segment) (room : Nat) :
    (Route.reduce path).ups ≤ room ↔ ∀ front, front <+: path →
      front.count Segment.parent ≤ room + front.countP fun s => decide s.IsName := by
  induction path generalizing room with
  | nil => simp [Route.reduce]
  | cons s path ih =>
    have hcons : (∀ front, front <+: s :: path →
          front.count Segment.parent ≤ room + front.countP fun s => decide s.IsName) ↔
        ∀ front, front <+: path → (s :: front).count Segment.parent ≤
          room + (s :: front).countP fun s => decide s.IsName := by
      constructor
      · intro h front hfront
        exact h _ (List.prefix_cons_inj s |>.2 hfront)
      · intro h front hfront
        rcases List.prefix_cons_iff.1 hfront with rfl | ⟨rest, rfl, hrest⟩
        · exact Nat.zero_le _
        · exact h rest hrest
    rw [hcons, Route.reduce_cons]
    by_cases hname : s.IsName
    · have hcount : ∀ front : List Segment,
          (s :: front).count Segment.parent = front.count Segment.parent := fun front =>
        List.count_cons_of_ne hname.ne_parent
      have hnames : ∀ front : List Segment, ((s :: front).countP fun s => decide s.IsName) =
          (front.countP fun s => decide s.IsName) + 1 := fun front =>
        List.countP_cons_of_pos (by simpa using hname)
      rw [(Route.step_name hname _).1, Nat.sub_le_iff_le_add, ih]
      simp only [hcount, hnames, Nat.add_assoc, Nat.add_comm]
    · have hnames : ∀ front : List Segment, ((s :: front).countP fun s => decide s.IsName) =
          front.countP fun s => decide s.IsName := fun front =>
        List.countP_cons_of_neg (by simpa using hname)
      by_cases hparent : s = Segment.parent
      · subst hparent
        rw [Route.step_parent]
        simp only [hnames, List.count_cons_self]
        cases room with
        | zero =>
          refine iff_of_false (Nat.not_succ_le_zero _) fun h => ?_
          exact absurd (h [] List.nil_prefix) (by simp)
        | succ room =>
          rw [Nat.add_le_add_iff_right, ih]
          simp only [Nat.add_right_comm room 1, Nat.add_le_add_iff_right]
      · have hcount : ∀ front : List Segment,
            (s :: front).count Segment.parent = front.count Segment.parent := fun front =>
          List.count_cons_of_ne hparent
        have hstep : (Route.reduce path).step s = Route.reduce path := by
          rw [Route.step, dif_neg hname, if_neg hparent]
        simp only [hstep, hcount, hnames, ih]

theorem Route.ups_eq_zero_iff (path : List Segment) :
    (Route.reduce path).ups = 0 ↔ StaysBelow path := by
  rw [← Nat.le_zero, Route.ups_le_iff]
  simp only [Nat.zero_add, StaysBelow]

namespace DirectorySource

/-- The segments of a location, without the slashes in front of it. -/
def segments (location : String) : List Segment :=
  Text.splitOn '/' (relativeText location).toList

/-- A file is the root followed by the names that are left of a location: the segments of the
location that are not empty cancel to these names and to nothing else. -/
structure FileBelow (root location file : String) (names : List Segment) : Prop where
  isName : ∀ s ∈ names, s.IsName
  cancels : ∀ other : Route,
    Relation.ReflTransGen Cancels ((segments location).filter (· ≠ [])) other.segments ↔
      other = ⟨0, names, isName⟩
  text : file = FilePath.joinText (FilePath.ofText root).text
    (FilePath.text ⟨false, names.map String.ofList⟩)
  /-- Read as a path, the file is the root and nothing but these names behind it. -/
  path : FilePath.ofText file = ⟨(FilePath.ofText root).absolute,
    (FilePath.ofText root).segments ++ names.map String.ofList⟩

variable {root location file : String}

theorem head?_relativeText (location : String) :
    (relativeText location).toList.head? ≠ some '/' := by
  rw [relativeText, String.toList_ofList]
  intro hhead
  have hfirst := List.head?_dropWhile_not (· = '/') location.toList
  rw [hhead] at hfirst
  simp at hfirst

theorem ofText_relativeText (location : String) :
    FilePath.ofText (relativeText location) =
      ⟨false, (Route.reduce (segments location)).segments.map String.ofList⟩ := by
  rw [FilePath.ofText_eq, decide_eq_false (head?_relativeText location)]
  rfl

theorem escapes_relativeText (location : String) :
    (FilePath.ofText (relativeText location)).escapes = false ↔ StaysBelow (segments location) := by
  rw [ofText_relativeText, ← Route.ups_eq_zero_iff]
  generalize Route.reduce (segments location) = r
  have hnames : String.ofList Segment.parent ∉ r.names.map String.ofList := by
    intro hmem
    obtain ⟨s, hs, heq⟩ := List.mem_map.1 hmem
    exact (r.isName s hs).ne_parent (String.ofList_injective heq)
  have hparent : FilePath.parentSegment = String.ofList Segment.parent := rfl
  simp [FilePath.escapes, Route.segments, hparent, hnames]

theorem pathOf_eq_ok_iff : (ofText root).pathOf location = .ok file ↔
    (¬ "://".toList <:+: location.toList ∧ StaysBelow (segments location)) ∧
      file = FilePath.joinText (FilePath.ofText root).text
        (FilePath.ofText (relativeText location)).text := by
  rw [← escapes_relativeText, ← Text.contains_iff,
    show "://".toList = [':', '/', '/'] from rfl, pathOf]
  split
  · next haddress => exact iff_of_false (by simp) fun h => h.1.1 haddress
  · next haddress =>
    dsimp only
    split
    · next hescapes => exact iff_of_false (by simp) fun h => by simp [h.1.2] at hescapes
    · next hescapes =>
      rw [Except.ok.injEq]
      exact ⟨fun h => ⟨⟨haddress, by simpa using hescapes⟩, h.symm⟩, fun h => h.2.symm⟩

theorem segments_noSlash {s : Segment} (hs : s ∈ (segments location).filter (· ≠ [])) :
    s ≠ [] ∧ '/' ∉ s := by
  obtain ⟨hmem, hne⟩ := List.mem_filter.1 hs
  exact ⟨by simpa using hne, Text.notMem_of_mem_splitOn hmem⟩

/-- The file of a location that stays below the root. -/
theorem fileBelow_of_staysBelow (root : String) (h : StaysBelow (segments location)) :
    ∃ names, FileBelow root location (FilePath.joinText (FilePath.ofText root).text
      (FilePath.ofText (relativeText location)).text) names := by
  obtain ⟨r, hr⟩ : ∃ r, Route.reduce (segments location) = r := ⟨_, rfl⟩
  have hups : r.ups = 0 := hr ▸ (Route.ups_eq_zero_iff _).2 h
  have hroute : r = ⟨0, r.names, r.isName⟩ := Route.ext hups rfl
  have hrelative : FilePath.ofText (relativeText location) =
      ⟨false, r.names.map String.ofList⟩ := by
    rw [ofText_relativeText, hr, Route.segments, hups, List.replicate_zero, List.nil_append]
  refine ⟨r.names, r.isName, fun other => ?_, by rw [hrelative], ?_⟩
  · rw [← Route.reduce_eq_iff fun _ hs => segments_noSlash hs, Route.reduce_filter, hr, ← hroute]
    exact eq_comm
  · rw [hrelative]
    exact FilePath.ofText_joinText_names root r.isName

/-- A location has a file exactly if it is no address and stays below the root. The file is the root
followed by the names that are left of the location, and so never outside of the root. -/
theorem pathOf_iff_staysBelow (root location : String) :
    ((∃ file, (ofText root).pathOf location = .ok file) ↔
      ¬ "://".toList <:+: location.toList ∧ StaysBelow (segments location)) ∧
    ∀ file, (ofText root).pathOf location = .ok file →
      ∃ names, FileBelow root location file names := by
  simp only [pathOf_eq_ok_iff]
  constructor
  · exact ⟨fun ⟨_, h, _⟩ => h, fun h => ⟨_, h, rfl⟩⟩
  · rintro _ ⟨⟨-, hbelow⟩, rfl⟩
    exact fileBelow_of_staysBelow root hbelow

/-- A location that climbs inside of the root, and comes out at a file below it. -/
theorem pathOf_inner_climb :
    (ofText "/srv/site").pathOf "/src/lib/../a.ts" = .ok "/srv/site/src/a.ts" ∧
      ∃ names, FileBelow "/srv/site" "/src/lib/../a.ts" "/srv/site/src/a.ts" names := by
  have hpath : (ofText "/srv/site").pathOf "/src/lib/../a.ts" = .ok "/srv/site/src/a.ts" := by
    decide +kernel
  exact ⟨hpath, (pathOf_iff_staysBelow "/srv/site" "/src/lib/../a.ts").2 _ hpath⟩

end DirectorySource

end ScriptLoader
