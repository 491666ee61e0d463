import Mathlib.Data.List.Induction
import ScriptLoader.Proofs.Disk.Extends
import ScriptLoader.Proofs.Disk.Paths

/-!
# Directories and files below a directory

What stands below a directory is a tree: around each node there are directories. Names lead down in
the tree as far as there are directories, so that directories can be created along names exactly if
no file is in the way, and a file can be written where no directory is.

* `Disk.Tree`: around all that is below a directory there are directories.
* `Disk.Blocked`: a file stands in the way of names.
* `Disk.createFrom_tree`: creating directories along names, and `Disk.Made`, what is there then.
* `Disk.locate_joinText`: a path that is joined to the text of a directory is followed from there.
-/

namespace ScriptLoader.Disk

variable {d k : Disk} {here start segments names : List String} {s : String}

/-- A disk takes a name that does not stand for another directory, is not too long and has no
character of value zero. -/
structure Takes (name : String) : Prop where
  ne_empty : name ≠ ""
  ne_current : name ≠ "."
  ne_parent : name ≠ FilePath.parentSegment
  short : name.utf8ByteSize ≤ maxName
  noZero : '\x00' ∉ name.toList

/-- A directory, and directories around all that is below it. -/
structure Tree (d : Disk) (here : List String) : Prop where
  directory : d.node? here = some .directory
  closed : ∀ below name, d.node? (here ++ (below ++ [name])) ≠ none →
    d.node? (here ++ below) = some .directory

/-- A file stands in the way of names. -/
def Blocked (d : Disk) (here names : List String) : Prop :=
  ∃ front content, front <+: names ∧ d.node? (here ++ front) = some (.file content)

theorem blocked_concat {front : List String} {name : String} :
    Blocked d here (front ++ [name]) ↔
      (∃ content, d.node? (here ++ (front ++ [name])) = some (.file content)) ∨
        Blocked d here front := by
  constructor
  · rintro ⟨part, content, hpart, hfile⟩
    rcases List.prefix_concat_iff.1 hpart with rfl | hpart
    · exact .inl ⟨content, hfile⟩
    · exact .inr ⟨part, content, hpart, hfile⟩
  · rintro (⟨content, hfile⟩ | ⟨part, content, hpart, hfile⟩)
    · exact ⟨_, content, List.prefix_rfl, hfile⟩
    · exact ⟨part, content, hpart.trans (List.prefix_append _ _), hfile⟩

/-! ## Following names -/

theorem follow_append (d : Disk) (here xs ys : List String) :
    d.follow here (xs ++ ys) = (d.follow here xs).bind fun found => d.follow found ys := by
  induction xs generalizing here with
  | nil => rfl
  | cons s xs ih =>
    rw [List.cons_append, Disk.follow, Disk.follow]
    cases hn : d.node? here.reverse with
    | none => rfl
    | some n =>
      cases n with
      | file content => rfl
      | directory =>
        dsimp only
        split
        · exact ih here
        · split
          · exact ih here.tail
          · split
            · rfl
            · exact ih (s :: here)

theorem follow_name (hs : Takes s) (h : d.node? here.reverse = some .directory)
    (rest : List String) : d.follow here (s :: rest) = d.follow (s :: here) rest := by
  have hskip : ¬ (s = "" ∨ s = ".") := not_or.2 ⟨hs.ne_empty, hs.ne_current⟩
  rw [Disk.follow, h]
  dsimp only
  rw [if_neg hskip, if_neg hs.ne_parent, if_neg (Nat.not_lt.2 hs.short)]

theorem follow_none (h : d.node? here.reverse = none) (rest : List String) :
    d.follow here (s :: rest) = .error .notFound := by
  rw [Disk.follow, h]

theorem follow_file {content : FileContent} (h : d.node? here.reverse = some (.file content))
    (rest : List String) : d.follow here (s :: rest) = .error .notDirectory := by
  rw [Disk.follow, h]

/-- Empty segments lead nowhere. -/
theorem follow_filter {found : List String} (h : d.follow here segments = .ok found) :
    d.follow here (segments.filter (· ≠ "")) = .ok found := by
  induction segments generalizing here with
  | nil => exact h
  | cons s rest ih =>
    rw [Disk.follow] at h
    split at h
    · cases h
    · cases h
    · next hn =>
      split at h
      · next hskip =>
        by_cases hs : s = ""
        · rw [List.filter_cons_of_neg (by simpa using hs)]
          exact ih h
        · rw [List.filter_cons_of_pos (by simpa using hs), Disk.follow, hn]
          dsimp only
          rw [if_pos hskip]
          exact ih h
      · next hskip =>
        have hs : s ≠ "" := fun hs => hskip (.inl hs)
        rw [List.filter_cons_of_pos (by simpa using hs), Disk.follow, hn]
        dsimp only
        rw [if_neg hskip]
        split at h
        · next hp =>
          rw [if_pos hp]
          exact ih h
        · next hp =>
          rw [if_neg hp]
          split at h
          · cases h
          · next hlong =>
            rw [if_neg hlong]
            exact ih h

namespace Tree

/-- Around a node below the directory there are directories. -/
theorem around (h : Tree d here) {front more : List String}
    (hnode : d.node? (here ++ (front ++ more)) ≠ none) (hmore : more ≠ []) :
    d.node? (here ++ front) = some .directory := by
  induction more using List.reverseRecOn with
  | nil => exact absurd rfl hmore
  | append_singleton more name ih =>
    have hclosed := h.closed (front ++ more) name (by simpa using hnode)
    by_cases hnil : more = []
    · simpa [hnil] using hclosed
    · exact ih (by simp [hclosed]) hnil

/-- No file is in the way of a directory below. -/
theorem not_blocked (h : Tree d here) (hnode : d.node? (here ++ names) = some .directory) :
    ¬ Blocked d here names := by
  rintro ⟨front, content, ⟨more, rfl⟩, hfile⟩
  by_cases hmore : more = []
  · rw [hmore, List.append_nil, hfile] at hnode
    cases hnode
  · rw [h.around (by simp [hnode]) hmore] at hfile
    cases hfile

/-- Names lead to a directory below. -/
theorem follow_directory (h : Tree d here) (hnames : ∀ s ∈ names, Takes s)
    (hnode : d.node? (here ++ names) = some .directory) :
    d.follow here.reverse names = .ok (here ++ names).reverse := by
  induction names using List.reverseRecOn with
  | nil => simp [Disk.follow]
  | append_singleton front name ih =>
    obtain ⟨hfront, hname⟩ := List.forall_mem_append.1 hnames
    have hdirectory := h.closed front name (by simp [hnode])
    rw [follow_append, ih hfront hdirectory, Except.bind,
      follow_name (hname name (by simp)) (by simpa using hdirectory)]
    simp [Disk.follow]

/-- A name behind a directory below leads to a place in it. -/
theorem follow_concat (h : Tree d here) {front : List String} {name : String}
    (hnames : ∀ s ∈ front ++ [name], Takes s)
    (hnode : d.node? (here ++ front) = some .directory) :
    d.follow here.reverse (front ++ [name]) = .ok (here ++ (front ++ [name])).reverse := by
  obtain ⟨hfront, hname⟩ := List.forall_mem_append.1 hnames
  rw [follow_append, h.follow_directory hfront hnode, Except.bind,
    follow_name (hname name (by simp)) (by simpa using hnode)]
  simp [Disk.follow]

/-- A name behind anything else leads nowhere, because of a file in the way or because something is
missing. -/
theorem follow_error (h : Tree d here) {front : List String} {name : String}
    (hnames : ∀ s ∈ front ++ [name], Takes s)
    (hnode : d.node? (here ++ front) ≠ some .directory) :
    (Blocked d here front → d.follow here.reverse (front ++ [name]) = .error .notDirectory) ∧
      (¬ Blocked d here front → d.follow here.reverse (front ++ [name]) = .error .notFound) := by
  induction front using List.reverseRecOn generalizing name with
  | nil => exact absurd (by simpa using h.directory) hnode
  | append_singleton front last ih =>
    obtain ⟨hfront, -⟩ := List.forall_mem_append.1 hnames
    by_cases hdirectory : d.node? (here ++ front) = some .directory
    · have hfollow := h.follow_concat hfront hdirectory
      rw [follow_append, hfollow, Except.bind, blocked_concat,
        or_iff_left (h.not_blocked hdirectory)]
      constructor
      · rintro ⟨content, hfile⟩
        exact follow_file (by simpa using hfile) []
      · intro hnone
        refine follow_none ?_ []
        rw [List.reverse_reverse]
        cases hother : d.node? (here ++ (front ++ [last])) with
        | none => rfl
        | some n =>
          cases n with
          | directory => exact absurd hother hnode
          | file content => exact absurd ⟨content, hother⟩ hnone
    · have hnone : d.node? (here ++ (front ++ [last])) = none := by
        by_contra hsome
        exact hdirectory (h.closed front last hsome)
      obtain ⟨hfile, hmissing⟩ := ih hfront hdirectory
      rw [follow_append, blocked_concat, or_iff_right (by simp [hnone])]
      exact ⟨fun hb => by rw [hfile hb]; rfl, fun hb => by rw [hmissing hb]; rfl⟩

end Tree

/-! ## Creating directories along names -/

/-- Directories were created along names, and nothing else changed below a directory. -/
structure Made (d k : Disk) (here names : List String) : Prop where
  extended : d.Extends k
  node : ∀ below, k.node? (here ++ below) =
    if below <+: names then some .directory else d.node? (here ++ below)

theorem Made.tree (hk : Made d k here names) (h : Tree d here) : Tree k here where
  directory := by simpa using hk.node []
  closed := by
    intro below name hnode
    rw [hk.node] at hnode ⊢
    split
    · rfl
    · next hbelow =>
      rw [if_neg fun hlonger => hbelow ((List.prefix_append below [name]).trans hlonger)] at hnode
      exact h.closed below name hnode

/-- Nothing is to be created along names that lead to a directory. -/
theorem Tree.made_self (h : Tree d here) (hnode : d.node? (here ++ names) = some .directory) :
    Made d d here names where
  extended := .refl
  node := by
    intro below
    split
    · next hbelow =>
      obtain ⟨more, rfl⟩ := hbelow
      by_cases hmore : more = []
      · simpa [hmore] using hnode
      · exact h.around (by simp [hnode]) hmore
    · rfl

/-- A directory is added at the end of names that lead to a directory. -/
theorem Tree.made_put (h : Tree d here) {front : List String} {name : String}
    (hfront : d.node? (here ++ front) = some .directory)
    (hnone : d.node? (here ++ (front ++ [name])) = none) :
    Made d (d.put (here ++ (front ++ [name])) .directory) here (front ++ [name]) where
  extended := extends_put (by simp [hnone])
  node := by
    intro below
    rw [node?_put (by simp [hnone])]
    have hself := (h.made_self hfront).node below
    by_cases hbelow : below = front ++ [name]
    · simp [hbelow]
    · have hiff : below <+: front ++ [name] ↔ below <+: front := by
        rw [List.prefix_concat_iff, or_iff_right hbelow]
      rw [if_neg (by simpa using hbelow)]
      exact hself.trans (if_congr hiff.symm rfl rfl)

theorem Made.trans {l : Disk} {more : List String} (hk : Made d k here names)
    (hl : Made k l here (names ++ more)) : Made d l here (names ++ more) where
  extended := hk.extended.trans hl.extended
  node := by
    intro below
    rw [hl.node, hk.node]
    split
    · rfl
    · next hbelow => rw [if_neg fun hshort => hbelow (hshort.trans (List.prefix_append _ _))]

section

variable {rest : List String} {e : DiskFault}

theorem createFrom_of_createOne (h : d.createOne start (s :: rest).reverse = .ok k) :
    d.createFrom start (s :: rest) = .ok k := by
  rw [createFrom, h]

theorem createFrom_of_error (h : d.createOne start (s :: rest).reverse = .error e)
    (he : e ≠ .notFound) : d.createFrom start (s :: rest) =
      if d.leadsToDirectory start (s :: rest).reverse then .ok d else .error e := by
  rw [createFrom, h]
  cases e <;> first | rfl | exact absurd rfl he

theorem createFrom_of_missing (h : d.createOne start (s :: rest).reverse = .error .notFound)
    {between : Disk} (hbetween : d.createFrom start (around s rest) = .ok between)
    (hk : between.createOne start (s :: rest).reverse = .ok k) :
    d.createFrom start (s :: rest) = .ok k := by
  rw [createFrom, h, hbetween]
  dsimp only
  rw [hk]

end

theorem createOne_of_follow {found : List String} (h : d.follow start segments = .ok found) :
    d.createOne start segments =
      match d.node? found.reverse with
      | some _ => .error .exists
      | none => .ok (d.put found.reverse .directory) := by
  simp only [createOne, h, bind, Except.bind]
  cases d.node? found.reverse <;> rfl

theorem createOne_of_error {e : DiskFault} (h : d.follow start segments = .error e) :
    d.createOne start segments = .error e := by
  simp only [createOne, h, bind, Except.bind]

section

variable {front : List String} {name : String}

theorem follow_segments (hstart : d.follow start segments = .ok here.reverse)
    (names : List String) : d.follow start (segments ++ names) = d.follow here.reverse names := by
  rw [follow_append, hstart, Except.bind]

/-- The last of several directories is created in the one before it, unless it is there. -/
theorem createFrom_last (h : Tree d here) (hstart : d.follow start segments = .ok here.reverse)
    (hnames : ∀ s ∈ front ++ [name], Takes s)
    (hfront : d.node? (here ++ front) = some .directory) :
    (¬ Blocked d here (front ++ [name]) →
      ∃ k, d.createFrom start (name :: (segments ++ front).reverse) = .ok k ∧
        Made d k here (front ++ [name])) ∧
    (Blocked d here (front ++ [name]) →
      ∃ e, d.createFrom start (name :: (segments ++ front).reverse) = .error e) := by
  have hback : (name :: (segments ++ front).reverse).reverse = segments ++ (front ++ [name]) := by
    simp
  have hfollow : d.follow start (name :: (segments ++ front).reverse).reverse =
      .ok (here ++ (front ++ [name])).reverse := by
    rw [hback, follow_segments hstart, h.follow_concat hnames hfront]
  have hone := createOne_of_follow hfollow
  have hlead : d.leadsToDirectory start (name :: (segments ++ front).reverse).reverse =
      decide (d.node? (here ++ (front ++ [name])) = some .directory) := by
    rw [leadsToDirectory, hfollow]
    dsimp only
    rw [List.reverse_reverse]
  rw [List.reverse_reverse] at hone
  rw [blocked_concat, or_iff_left (h.not_blocked hfront)]
  cases hnode : d.node? (here ++ (front ++ [name])) with
  | none =>
    rw [hnode] at hone
    exact ⟨fun _ => ⟨_, createFrom_of_createOne hone, h.made_put hfront hnode⟩, by simp⟩
  | some n =>
    rw [hnode] at hone hlead
    rw [createFrom_of_error hone (by decide), hlead]
    cases n with
    | directory => exact ⟨fun _ => ⟨d, rfl, h.made_self hnode⟩, by simp⟩
    | file content => exact ⟨fun hnot => absurd ⟨content, rfl⟩ hnot, fun _ => ⟨_, rfl⟩⟩

/-- The directories around the last one are created before it if they are missing. -/
theorem createFrom_around (h : Tree d here) (hstart : d.follow start segments = .ok here.reverse)
    (hnames : ∀ s ∈ front ++ [name], Takes s)
    (hfront : d.node? (here ++ front) ≠ some .directory)
    (haround : ¬ Blocked d here front →
      ∃ k, d.createFrom start (segments ++ front).reverse = .ok k ∧ Made d k here front) :
    (¬ Blocked d here (front ++ [name]) →
      ∃ k, d.createFrom start (name :: (segments ++ front).reverse) = .ok k ∧
        Made d k here (front ++ [name])) ∧
    (Blocked d here (front ++ [name]) →
      ∃ e, d.createFrom start (name :: (segments ++ front).reverse) = .error e) := by
  have hback : (name :: (segments ++ front).reverse).reverse = segments ++ (front ++ [name]) := by
    simp
  have hnone : d.node? (here ++ (front ++ [name])) = none := by
    by_contra hsome
    exact hfront (h.closed front name hsome)
  obtain ⟨hblocked, hmissing⟩ := h.follow_error hnames hfront
  rw [← follow_segments hstart, ← hback] at hblocked hmissing
  rw [blocked_concat, or_iff_right (by simp [hnone])]
  constructor
  · intro hfree
    obtain ⟨between, hbetween, hmade⟩ := haround hfree
    have hthere : between.node? (here ++ front) = some .directory := by
      rw [hmade.node, if_pos List.prefix_rfl]
    have hnot : between.node? (here ++ (front ++ [name])) = none := by
      rw [hmade.node, if_neg fun hlonger => absurd hlonger.length_le (by simp), hnone]
    have hfollow : between.follow start (name :: (segments ++ front).reverse).reverse =
        .ok (here ++ (front ++ [name])).reverse := by
      rw [hback, follow_segments (hmade.extended.follow hstart),
        (hmade.tree h).follow_concat hnames hthere]
    have hone := createOne_of_follow hfollow
    rw [List.reverse_reverse, hnot] at hone
    refine ⟨_, createFrom_of_missing (createOne_of_error (hmissing hfree)) ?_ hone,
      hmade.trans ((hmade.tree h).made_put hthere hnot)⟩
    rw [around, if_neg (hnames name (by simp)).ne_current]
    exact hbetween
  · intro hblock
    have hlead : d.leadsToDirectory start (name :: (segments ++ front).reverse).reverse =
        false := by
      rw [leadsToDirectory, hblocked hblock]
    rw [createFrom_of_error (createOne_of_error (hblocked hblock)) (by decide), hlead]
    exact ⟨_, rfl⟩

end

/-- Directories can be created along names unless a file is in the way. -/
theorem createFrom_tree (h : Tree d here) (hstart : d.follow start segments = .ok here.reverse)
    (hnames : ∀ s ∈ names, Takes s) :
    (¬ Blocked d here names →
      ∃ k, d.createFrom start (segments ++ names).reverse = .ok k ∧ Made d k here names) ∧
    (Blocked d here names →
      ∃ e, d.createFrom start (segments ++ names).reverse = .error e) := by
  induction names using List.reverseRecOn with
  | nil =>
    have hnode : d.node? (here ++ []) = some .directory := by simpa using h.directory
    have hlead : d.leadsToDirectory start (segments ++ []).reverse.reverse = true := by
      rw [List.reverse_reverse, List.append_nil, leadsToDirectory, hstart]
      simpa using h.directory
    exact ⟨fun _ => ⟨d, createFrom_of_leads (.inr hlead), h.made_self hnode⟩,
      fun hblocked => absurd hblocked (h.not_blocked hnode)⟩
  | append_singleton front name ih =>
    have hreverse : (segments ++ (front ++ [name])).reverse =
        name :: (segments ++ front).reverse := by
      simp
    rw [hreverse]
    by_cases hfront : d.node? (here ++ front) = some .directory
    · exact createFrom_last h hstart hnames hfront
    · exact createFrom_around h hstart hnames hfront (ih (List.forall_mem_append.1 hnames).1).1

/-! ## Paths below a directory -/

/-- What is joined to the text of a directory is followed from there. -/
theorem follow_joinText {base below : String} (hbase : base ≠ "")
    (hbelow : below.toList.head? ≠ some '/')
    (h : d.follow start (FilePath.split base) = .ok here.reverse) :
    ∃ front, d.follow start front = .ok here.reverse ∧
      FilePath.split (FilePath.joinText base below) = front ++ FilePath.split below := by
  obtain ⟨front, hjoined, hsplit⟩ := FilePath.exists_split_joinText hbase hbelow
  refine ⟨front, ?_, hjoined⟩
  rcases hsplit with hsplit | hsplit
  · rwa [← hsplit]
  · rw [hsplit, follow_append] at h
    cases hfront : d.follow start front with
    | error e => simp [hfront, Except.bind] at h
    | ok found =>
      rw [hfront, Except.bind, Disk.follow] at h
      split at h
      · cases h
      · cases h
      · rw [if_pos (Or.inl rfl), Disk.follow] at h
        exact h

theorem locate_eq_ok_iff {path : String} : d.locate path = .ok names ↔
    '\x00' ∉ path.toList ∧ path ≠ "" ∧
      d.follow (d.start path) (FilePath.split path) = .ok names.reverse := by
  unfold locate
  split
  · next hzero => simp_all
  · next hzero =>
    split
    · next hnil => simp [hnil]
    · next hne =>
      cases hfollow : d.follow (d.start path) (FilePath.split path) with
      | error e => simp [Except.map]
      | ok found =>
        have hiff : found.reverse = names ↔ found = names.reverse := by
          rw [← List.reverse_inj, List.reverse_reverse]
        simp_all [Except.map]

theorem start_joinText {base below : String} (hbase : base ≠ "")
    (hbelow : below.toList.head? ≠ some '/') (d : Disk) :
    d.start (FilePath.joinText base below) = d.start base := by
  rw [start, start, FilePath.head?_joinText hbase hbelow]

theorem notMem_joinText {base below : String} {c : Char} (hc : c ≠ '/') (hbase : c ∉ base.toList)
    (hbelow : c ∉ below.toList) : c ∉ (FilePath.joinText base below).toList := by
  have hslash : c ∉ "/".toList := by simpa using hc
  unfold FilePath.joinText
  split
  · exact hbelow
  · split <;> simp [String.toList_append, hbase, hbelow, hc]

/-- The directories at the first segments of a path are created from where the path begins. -/
theorem createDirectories_intercalate {path : String} (hzero : '\x00' ∉ path.toList)
    (hfront : segments <+: FilePath.split path) :
    d.createDirectories ("/".intercalate segments) =
      d.createFrom (d.start path) (segments.filter (· ≠ "")).reverse := by
  have hbegins : ("/".intercalate segments).toList <+: path.toList := by
    rw [FilePath.toList_intercalate_strings, ← FilePath.joinWith_split path]
    exact FilePath.joinWith_of_isPrefix (hfront.map String.toList)
  have hzeros : ¬ ("/".intercalate segments).toList.contains '\x00' = true := by
    simpa using fun hmem => hzero (hbegins.subset hmem)
  have hsplit : segments ≠ [] → FilePath.split ("/".intercalate segments) = segments := fun hne =>
    FilePath.split_intercalate hne fun s hs =>
      FilePath.noSlash_of_mem_split (hfront.subset hs)
  rw [createDirectories, if_neg hzeros]
  by_cases hnone : segments.filter (· ≠ "") = []
  · -- Nothing is to be created, wherever the path begins.
    have hnothing : (FilePath.split ("/".intercalate segments)).filter (· ≠ "") = [] := by
      by_cases hne : segments = []
      · subst hne
        rfl
      · rw [hsplit hne, hnone]
    rw [hnothing, hnone, List.reverse_nil, createFrom, createFrom]
  · have hne : segments ≠ [] := by
      rintro rfl
      exact hnone rfl
    have htext : ("/".intercalate segments).toList ≠ [] := by
      intro hnil
      have hblank : "/".intercalate segments = "" := String.toList_injective hnil
      have hone := hsplit hne
      rw [hblank] at hone
      rw [← hone] at hnone
      exact hnone rfl
    have hstart : d.start ("/".intercalate segments) = d.start path := by
      obtain ⟨more, hmore⟩ := hbegins
      rw [start, start, ← hmore, List.head?_append_of_ne_nil _ htext]
    rw [hsplit hne, hstart]

/-- A path below a directory leads where its segments lead from there. -/
theorem locate_joinText {base below : String} (h : d.locate base = .ok here)
    (hbelow : below.toList.head? ≠ some '/') (hzero : '\x00' ∉ below.toList)
    (hfollow : d.follow here.reverse (FilePath.split below) = .ok names.reverse) :
    d.locate (FilePath.joinText base below) = .ok names := by
  obtain ⟨hzeros, hbase, hstart⟩ := locate_eq_ok_iff.1 h
  obtain ⟨front, hfront, hjoined⟩ := follow_joinText hbase hbelow hstart
  refine locate_eq_ok_iff.2 ⟨notMem_joinText (by decide) hzeros hzero, ?_, ?_⟩
  · intro hnil
    have hhead := FilePath.head?_joinText hbase hbelow
    rw [hnil] at hhead
    exact hbase (String.toList_injective (List.head?_eq_none_iff.1 hhead.symm))
  · rw [start_joinText hbase hbelow, hjoined, follow_append, hfront, Except.bind, hfollow]

end ScriptLoader.Disk
