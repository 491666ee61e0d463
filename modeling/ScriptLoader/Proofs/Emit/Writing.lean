import ScriptLoader.Cli.Commands
import ScriptLoader.Proofs.Disk.Writing
import ScriptLoader.Proofs.Emit.Paths

/-!
# Writing the modules of a graph

Paths of their own are not enough for the modules of a graph to be written: a module may be written
to a file where another one needs a directory, as a directory of a specifier may end in `.js` too.
Then the command fails on the way, with files of other modules written before. Otherwise all of them
and the manifest are written.

* `Emit.Coexist`: no path among those of some files leads through another one.
* `Emit.Laid`: what stands below the output directory once some files were written.
* `Cli.emission_ends_iff_coexist`: when the modules of a graph and its manifest can all be written.
-/

namespace ScriptLoader

namespace Emit

/-! ## Files below a directory -/

/-- The names on the way to a module's file. -/
def names (s : Specifier) : List String := (outputSegments s).map String.ofList

/-- The code of a record if it was generated. -/
def codeOf (r : CompiledRecord) : String :=
  match r.outcome with
  | .ok code => code
  | .error _ => ""

/-- The file of a record: its names and its text. -/
def fileOf (r : CompiledRecord) : List String × String := (names r.specifier, codeOf r)

/-- The modules of a graph as they are written. -/
def written (g : Graph) : List Written := g.records.map fun r => ⟨r, outputPath r.specifier⟩

/-- The manifest of a graph as a file. -/
def manifestFile (g : Graph) : List String × String :=
  ([manifestName], (manifest g.entries (written g)).renderPretty 0)

/-- No path of a file leads through another file. -/
def Coexist (files : List (List String × String)) : Prop :=
  ∀ f ∈ files, ∀ other ∈ files, f.1 <+: other.1 → f.1 = other.1

/-- A path leads through none of some files, and no path of theirs through it. -/
def Apart (files : List (List String × String)) (path : List String) : Prop :=
  ∀ f ∈ files, ¬ f.1 <+: path ∧ ¬ path <+: f.1

/-- Below a directory there are these files, the directories on the way to them, and nothing
else. -/
structure Laid (d : Disk) (here : List String) (files : List (List String × String)) : Prop where
  file : ∀ f ∈ files, d.node? (here ++ f.1) = some (.file (.bytes f.2.toUTF8.toList))
  directory : ∀ below, (below = [] ∨ ∃ f ∈ files, below <+: f.1 ∧ below ≠ f.1) →
    d.node? (here ++ below) = some .directory
  nothing : ∀ below, below ≠ [] → (∀ f ∈ files, ¬ below <+: f.1) →
    d.node? (here ++ below) = none

namespace Laid

variable {d k : Disk} {here directories : List String} {name text : String}
  {files : List (List String × String)}

theorem there (h : Laid d here files) : d.node? here = some .directory := by
  simpa using h.directory [] (.inl rfl)

theorem tree (h : Laid d here files) : d.Tree here where
  directory := h.there
  closed := by
    intro below name hnode
    by_contra hdirectory
    refine hnode (h.nothing _ (by simp) fun f hf hlonger => ?_)
    refine hdirectory (h.directory _ (.inr ⟨f, hf, (List.prefix_append _ _).trans hlonger, ?_⟩))
    rintro rfl
    exact absurd hlonger.length_le (by simp)

theorem coexist (h : Laid d here files) : Coexist files := by
  intro f hf other hother hlonger
  by_contra hne
  have hdirectory := h.directory f.1 (.inr ⟨other, hother, hlonger, hne⟩)
  rw [h.file f hf] at hdirectory
  cases hdirectory

/-- A file is in the way of names exactly if it is one of those that were written. -/
theorem blocked_iff (h : Laid d here files) {names : List String} :
    d.Blocked here names ↔ ∃ f ∈ files, f.1 <+: names := by
  constructor
  · rintro ⟨front, content, hfront, hfile⟩
    by_contra hnone
    have hway : ∀ f ∈ files, front <+: f.1 → front ≠ f.1 := by
      rintro f hf - rfl
      exact hnone ⟨f, hf, hfront⟩
    by_cases hsome : front = [] ∨ ∃ f ∈ files, front <+: f.1
    · have hdirectory := h.directory front (hsome.imp_right fun hf => by
        obtain ⟨f, hf, hlonger⟩ := hf
        exact ⟨f, hf, hlonger, hway f hf hlonger⟩)
      rw [hfile] at hdirectory
      cases hdirectory
    · obtain ⟨hne, hno⟩ := not_or.1 hsome
      have hnothing := h.nothing front hne fun f hf hlonger => hno ⟨f, hf, hlonger⟩
      rw [hfile] at hnothing
      cases hnothing
  · rintro ⟨f, hf, hlonger⟩
    exact ⟨f.1, _, hlonger, h.file f hf⟩

/-- A file is added behind directories that were created for it. -/
theorem put (h : Laid d here files) (hapart : Apart files (directories ++ [name]))
    (hk : d.Made k here directories) (text : String) :
    k.node? (here ++ (directories ++ [name])) = none ∧
      Laid (k.put (here ++ (directories ++ [name])) (.file (.bytes text.toUTF8.toList))) here
        (files ++ [(directories ++ [name], text)]) := by
  have hnone : k.node? (here ++ (directories ++ [name])) = none := by
    rw [hk.node, if_neg fun hlonger => absurd hlonger.length_le (by simp)]
    exact h.nothing _ (by simp) fun f hf => (hapart f hf).2
  have hput : ∀ below, (k.put (here ++ (directories ++ [name]))
      (.file (.bytes text.toUTF8.toList))).node? (here ++ below) =
        if below = directories ++ [name] then some (.file (.bytes text.toUTF8.toList))
        else k.node? (here ++ below) := by
    intro below
    rw [Disk.node?_put (by simp [hnone])]
    simp
  refine ⟨hnone, ?_, ?_, ?_⟩
  · intro f hf
    rw [hput]
    rcases List.mem_append.1 hf with hf | hf
    · have hother : f.1 ≠ directories ++ [name] := fun heq =>
        (hapart f hf).1 (heq ▸ List.prefix_rfl)
      have hway : ¬ f.1 <+: directories := fun hshort =>
        (hapart f hf).1 (hshort.trans (List.prefix_append _ _))
      rw [if_neg hother, hk.node, if_neg hway, h.file f hf]
    · obtain rfl := List.mem_singleton.1 hf
      rw [if_pos rfl]
  · intro below hbelow
    rw [hput, hk.node]
    by_cases hshort : below <+: directories
    · have hother : below ≠ directories ++ [name] := by
        rintro rfl
        exact absurd hshort.length_le (by simp)
      rw [if_neg hother, if_pos hshort]
    · have hold : ∃ f ∈ files, below <+: f.1 ∧ below ≠ f.1 := by
        rcases hbelow with rfl | ⟨f, hf, hlonger, hne⟩
        · exact absurd List.nil_prefix hshort
        · rcases List.mem_append.1 hf with hf | hf
          · exact ⟨f, hf, hlonger, hne⟩
          · obtain rfl := List.mem_singleton.1 hf
            exact absurd ((List.prefix_concat_iff.1 hlonger).resolve_left hne) hshort
      obtain ⟨f, hf, hlonger, hne⟩ := hold
      have hother : below ≠ directories ++ [name] := fun heq => (hapart f hf).2 (heq ▸ hlonger)
      rw [if_neg hother, if_neg hshort]
      exact h.directory below (.inr ⟨f, hf, hlonger, hne⟩)
  · intro below hbelow hno
    have hnew := hno _ (List.mem_append_right _ (List.mem_singleton_self _))
    have hother : below ≠ directories ++ [name] := fun heq => hnew (heq ▸ List.prefix_rfl)
    have hway : ¬ below <+: directories := fun hshort =>
      hnew (hshort.trans (List.prefix_append _ _))
    rw [hput, if_neg hother, hk.node, if_neg hway]
    exact h.nothing below hbelow fun f hf => hno f (List.mem_append_left _ hf)

/-- A path that is not apart from the files has a file in its way, or is a directory. -/
theorem taken (h : Laid d here files) (hnew : directories ++ [name] ∉ files.map (·.1))
    (htaken : ¬ Apart files (directories ++ [name])) :
    d.Blocked here directories ∨
      d.node? (here ++ (directories ++ [name])) = some .directory := by
  obtain ⟨f, hf, hway⟩ : ∃ f ∈ files,
      ¬ (¬ f.1 <+: directories ++ [name] ∧ ¬ directories ++ [name] <+: f.1) := by
    simpa [Apart] using htaken
  have hne : f.1 ≠ directories ++ [name] := fun heq => hnew (heq ▸ List.mem_map_of_mem hf)
  by_cases hlonger : directories ++ [name] <+: f.1
  · exact .inr (h.directory _ (.inr ⟨f, hf, hlonger, hne.symm⟩))
  · have hshort : f.1 <+: directories ++ [name] := by
      by_contra hno
      exact hway ⟨hno, hlonger⟩
    exact .inl (h.blocked_iff.2 ⟨f, hf, (List.prefix_concat_iff.1 hshort).resolve_left hne⟩)

end Laid

/-! ## Paths of modules -/

theorem split_outputPath (s : Specifier) : FilePath.split (outputPath s) = names s := by
  rw [FilePath.split, splitOn_outputPath, names]

theorem names_eq_concat (s : Specifier) : ∃ directories name, names s = directories ++ [name] ∧
    name ≠ manifestName := by
  obtain ⟨directories, stem, heq, -⟩ := outputSegments_eq s
  refine ⟨directories.map String.ofList, String.ofList (stem ++ ".js".toList), ?_, ?_⟩
  · rw [names, heq, List.map_append, List.map_singleton]
  · intro hname
    have hlast := congrArg (fun name => name.toList.getLast?) hname
    simp [manifestName] at hlast

/-- The names on the way to the modules of a graph are not too long, and have no character of value
zero. -/
def Writable (g : Graph) : Prop :=
  ∀ s ∈ g.specifiers, ∀ name ∈ names s,
    name.utf8ByteSize ≤ Disk.maxName ∧ '\x00' ∉ name.toList

theorem Writable.takes {g : Graph} (h : Writable g) {s : Specifier} (hs : s ∈ g.specifiers) :
    ∀ name ∈ names s, Disk.Takes name := by
  intro name hname
  obtain ⟨hshort, hzero⟩ := h s hs name hname
  obtain ⟨segment, hsegment, rfl⟩ := List.mem_map.1 hname
  have hisName := isName_of_mem_outputSegments segment hsegment
  exact ⟨fun h => hisName.ne_nil (String.ofList_injective h),
    fun h => hisName.ne_current (String.ofList_injective h),
    fun h => hisName.ne_parent (String.ofList_injective h), hshort, hzero⟩

end Emit

namespace Cli

open Cli.Action Emit

/-! ## One file -/

section

variable {d k : Disk} {here directories : List String} {output file name : String}

theorem noZero_of_takes (hsplit : FilePath.split file = directories ++ [name])
    (htakes : ∀ s ∈ directories ++ [name], Disk.Takes s) : '\x00' ∉ file.toList := by
  rw [← FilePath.joinWith_split]
  intro hzero
  obtain ⟨piece, hpiece, hmem⟩ := FilePath.mem_joinWith (by decide) hzero
  obtain ⟨s, hs, rfl⟩ := List.mem_map.1 hpiece
  exact (htakes s (hsplit ▸ hs)).noZero hmem

theorem filter_dropWhile_empty (segments : List String) :
    (segments.dropWhile (· = "")).filter (· ≠ "") = segments.filter (· ≠ "") := by
  induction segments with
  | nil => rfl
  | cons s rest ih =>
    by_cases hs : s = ""
    · rw [List.dropWhile_cons_of_pos (by simpa using hs), ih,
        List.filter_cons_of_neg (by simpa using hs)]
    · rw [List.dropWhile_cons_of_neg (by simpa using hs)]

/-- The directory of a file below a directory is created along the names on the way to the file. -/
theorem createDirectories_directoryOf (hlocate : d.locate output = .ok here)
    (hfile : file.toList.head? ≠ some '/') (hsplit : FilePath.split file = directories ++ [name])
    (htakes : ∀ s ∈ directories ++ [name], Disk.Takes s) :
    ∃ start segments, d.follow start segments = .ok here.reverse ∧
      d.createDirectories (directoryOf output file) =
        d.createFrom start (segments ++ directories).reverse := by
  obtain ⟨hzeros, hbase, hstart⟩ := Disk.locate_eq_ok_iff.1 hlocate
  obtain ⟨front, hfront, hjoined⟩ := Disk.follow_joinText hbase hfile hstart
  refine ⟨d.start output, front.filter (· ≠ ""), Disk.follow_filter hfront, ?_⟩
  have houter : (FilePath.split (FilePath.joinText output file)).dropLast =
      front ++ directories := by
    rw [hjoined, hsplit, ← List.append_assoc, List.dropLast_concat]
  have hbegins : ((front ++ directories).reverse.dropWhile (· = "")).reverse <+:
      FilePath.split (FilePath.joinText output file) := by
    have hsuffix := List.dropWhile_suffix (· = "") (l := (front ++ directories).reverse)
    rw [← List.reverse_prefix, List.reverse_reverse, ← houter] at hsuffix
    rw [← houter]
    exact hsuffix.trans (List.dropLast_prefix _)
  have hkept : ((front ++ directories).reverse.dropWhile (· = "")).reverse.filter (· ≠ "") =
      front.filter (· ≠ "") ++ directories := by
    have hdirectories : directories.filter (· ≠ "") = directories :=
      List.filter_eq_self.2 fun s hs => by
        simpa using (htakes s (List.mem_append_left _ hs)).ne_empty
    rw [List.filter_reverse, filter_dropWhile_empty, ← List.filter_reverse, List.reverse_reverse,
      List.filter_append, hdirectories]
  rw [directoryOf, houter, Disk.createDirectories_intercalate
    (Disk.notMem_joinText (by decide) hzeros (noZero_of_takes hsplit htakes)) hbegins, hkept,
    Disk.start_joinText hbase hfile]

variable {files : List (List String × String)} {text : String}

/-- The directory of a file can be created unless a file is in the way. -/
theorem createDirectories_laid (h : Laid d here files) (hlocate : d.locate output = .ok here)
    (hfile : file.toList.head? ≠ some '/') (hsplit : FilePath.split file = directories ++ [name])
    (htakes : ∀ s ∈ directories ++ [name], Disk.Takes s) :
    (¬ d.Blocked here directories → ∃ k, d.createDirectories (directoryOf output file) = .ok k ∧
      d.Made k here directories) ∧
    (d.Blocked here directories →
      ∃ e, d.createDirectories (directoryOf output file) = .error e) := by
  obtain ⟨start, segments, hstart, heq⟩ :=
    createDirectories_directoryOf hlocate hfile hsplit htakes
  rw [heq]
  exact Disk.createFrom_tree h.tree hstart (List.forall_mem_append.1 htakes).1

/-- A file can be written into its directory unless a directory is in its place. -/
theorem write_made (hk : k.Tree here) (hlocate : k.locate output = .ok here)
    (hthere : k.node? (here ++ directories) = some .directory)
    (hfile : file.toList.head? ≠ some '/') (hsplit : FilePath.split file = directories ++ [name])
    (htakes : ∀ s ∈ directories ++ [name], Disk.Takes s) (text : String) :
    (k.node? (here ++ (directories ++ [name])) ≠ some .directory →
      k.write (FilePath.joinText output file) text =
        .ok (k.put (here ++ (directories ++ [name])) (.file (.bytes text.toUTF8.toList)))) ∧
    (k.node? (here ++ (directories ++ [name])) = some .directory →
      k.write (FilePath.joinText output file) text = .error .isDirectory) := by
  have hpath : k.locate (FilePath.joinText output file) = .ok (here ++ (directories ++ [name])) :=
    Disk.locate_joinText hlocate hfile (noZero_of_takes hsplit htakes) (by
      rw [hsplit, hk.follow_concat htakes hthere])
  constructor
  · intro hnode
    exact Disk.writeContent_eq_ok_iff.2 ⟨_, hpath, hnode, rfl⟩
  · intro hnode
    simp only [Disk.write, Disk.writeContent, hpath, bind, Except.bind, hnode]
    rfl

end

/-! ## Actions -/

/-- An action ends with a result, and leaves a disk. -/
def Ends {α : Type} (act : Action α) (x : Effects) (result : Except Failure α) (d : Disk) : Prop :=
  ∃ y, act.run x = (result, y) ∧ y.disk = d

namespace Ends

variable {α β : Type} {act : Action α} {next : α → Action β} {x : Effects} {a : α} {f : Failure}
  {result : Except Failure β} {d k : Disk}

theorem run_bind (act : Action α) (next : α → Action β) (x : Effects) :
    (act >>= next).run x = ExceptT.bindCont next (act.run x).1 (act.run x).2 := rfl

theorem behind {y : Effects} (h : act.run x = (.ok a, y)) (hnext : Ends (next a) y result k) :
    Ends (act >>= next) x result k := by
  obtain ⟨z, hrest, hlast⟩ := hnext
  refine ⟨z, ?_, hlast⟩
  rw [run_bind, h]
  exact hrest

theorem bind_ok (h : Ends act x (.ok a) d) (hnext : ∀ y, y.disk = d → Ends (next a) y result k) :
    Ends (act >>= next) x result k := by
  obtain ⟨y, hrun, hdisk⟩ := h
  exact behind hrun (hnext y hdisk)

theorem bind_error (h : Ends act x (.error f) d) : Ends (act >>= next) x (.error f) d := by
  obtain ⟨y, hrun, hdisk⟩ := h
  refine ⟨y, ?_, hdisk⟩
  rw [run_bind, hrun]
  rfl

end Ends

section

variable {x : Effects} {k : Disk} {path text : String} {fault : DiskFault}
  {change : Disk → Except DiskFault Disk}

theorem look_ends (paths : List String) (x : Effects) : Ends (look paths) x (.ok x.disk) x.disk :=
  ⟨{ x with asked := x.asked ++ paths }, rfl, rfl⟩

theorem change_ok (h : change x.disk = .ok k) :
    Ends (do setDisk (← ofExcept (.write path) (change (← look [path])))) x (.ok ()) k := by
  refine (look_ends [path] x).bind_ok fun y hy => ?_
  rw [h]
  exact ⟨{ y with disk := k }, rfl, rfl⟩

theorem change_error (h : change x.disk = .error fault) :
    Ends (do setDisk (← ofExcept (.write path) (change (← look [path])))) x
      (.error (.write path fault)) x.disk := by
  refine (look_ends [path] x).bind_ok fun y hy => ?_
  rw [h]
  exact ⟨y, rfl, hy⟩

theorem createDirectory_ok (h : x.disk.createDirectories path = .ok k) :
    Ends (createDirectory path) x (.ok ()) k := change_ok h

theorem createDirectory_error (h : x.disk.createDirectories path = .error fault) :
    Ends (createDirectory path) x (.error (.write path fault)) x.disk := change_error h

theorem writeFile_ok (h : x.disk.write path text = .ok k) :
    Ends (writeFile path text) x (.ok ()) k := @change_ok x k path (·.write path text) h

theorem writeFile_error (h : x.disk.write path text = .error fault) :
    Ends (writeFile path text) x (.error (.write path fault)) x.disk :=
  @change_error x path fault (·.write path text) h

end

/-! ## Modules -/

section

variable {x : Effects} {here : List String} {output : String}
  {files : List (List String × String)} {r : CompiledRecord}

/-- The output directory holds some files. -/
structure Standing (d : Disk) (output : String) (here : List String)
    (files : List (List String × String)) : Prop where
  located : d.locate output = .ok here
  laid : Laid d here files

/-- A write failed, on a disk that has all directories of another one. -/
def FailsToWrite {α : Type} (act : Action α) (x : Effects) : Prop :=
  ∃ path fault d, Ends act x (.error (.write path fault)) d ∧ x.disk.Extends d

theorem FailsToWrite.bind {α β : Type} {act : Action α} (h : FailsToWrite act x)
    (next : α → Action β) : FailsToWrite (act >>= next) x := by
  obtain ⟨path, fault, d, hends, hext⟩ := h
  exact ⟨path, fault, d, hends.bind_error, hext⟩

theorem FailsToWrite.behind {α β : Type} {act : Action α} {next : α → Action β} {a : α}
    {y : Effects} (h : act.run x = (.ok a, y)) (hext : x.disk.Extends y.disk)
    (hnext : FailsToWrite (next a) y) : FailsToWrite (act >>= next) x := by
  obtain ⟨path, fault, d, hends, hlast⟩ := hnext
  exact ⟨path, fault, d, .behind h hends, hext.trans hlast⟩

/-- A module that is apart from the files that were written is written, and any other is not. -/
theorem writeModule_ends (h : Standing x.disk output here files)
    (hcode : ∃ code, r.outcome = .ok code) (htakes : ∀ name ∈ names r.specifier, Disk.Takes name)
    (hnew : names r.specifier ∉ files.map (·.1)) :
    (Apart files (names r.specifier) → ∃ size d,
      Ends (writeModule output ⟨r, outputPath r.specifier⟩) x (.ok size) d ∧ x.disk.Extends d ∧
        Standing d output here (files ++ [fileOf r])) ∧
    (¬ Apart files (names r.specifier) →
      FailsToWrite (writeModule output ⟨r, outputPath r.specifier⟩) x) := by
  obtain ⟨code, hcode⟩ := hcode
  obtain ⟨directories, name, hnames, -⟩ := names_eq_concat r.specifier
  have hsplit := (split_outputPath r.specifier).trans hnames
  have hfile := head?_outputPath r.specifier
  have hfileOf : fileOf r = (directories ++ [name], code) := by
    rw [fileOf, codeOf, hcode, hnames]
  have hact : writeModule output ⟨r, outputPath r.specifier⟩ = (do
      createDirectory (directoryOf output (outputPath r.specifier))
      writeFile (FilePath.joinText output (outputPath r.specifier)) code
      log [.moduleWritten r.specifier (FilePath.joinText output (outputPath r.specifier))]
      pure code.utf8ByteSize) := by
    simp only [writeModule, hcode, Action.ofExcept, pure_bind]
  rw [hact, hfileOf]
  rw [hnames] at htakes hnew ⊢
  obtain ⟨hfree, hblocked⟩ := createDirectories_laid h.laid h.located hfile hsplit htakes
  -- What happens once the directory of the module is there.
  have hmade : ∀ {k}, x.disk.Made k here directories →
      k.locate output = .ok here ∧ k.Tree here ∧
        k.node? (here ++ directories) = some .directory := fun hk =>
    ⟨hk.extended.locate h.located, hk.tree h.laid.tree, by rw [hk.node, if_pos List.prefix_rfl]⟩
  constructor
  · intro hapart
    have hway : ¬ x.disk.Blocked here directories := by
      rw [h.laid.blocked_iff]
      rintro ⟨f, hf, hshort⟩
      exact (hapart f hf).1 (hshort.trans (List.prefix_append _ _))
    obtain ⟨k, hk, hdirectories⟩ := hfree hway
    obtain ⟨hlocated, htree, hthere⟩ := hmade hdirectories
    obtain ⟨hnone, hlaid⟩ := h.laid.put hapart hdirectories code
    have hwrite := (write_made htree hlocated hthere hfile hsplit htakes code).1 (by simp [hnone])
    have hext := Disk.extends_put (n := .file (.bytes code.toUTF8.toList))
      (show k.node? (here ++ (directories ++ [name])) ≠ some .directory by simp [hnone])
    refine ⟨code.utf8ByteSize, _, ?_, hdirectories.extended.trans hext,
      hext.locate hlocated, hlaid⟩
    obtain ⟨y, hrun, rfl⟩ := createDirectory_ok hk
    exact .behind hrun ((writeFile_ok hwrite).bind_ok fun z hz => ⟨_, rfl, hz⟩)
  · intro htaken
    by_cases hway : x.disk.Blocked here directories
    · obtain ⟨e, he⟩ := hblocked hway
      exact FailsToWrite.bind ⟨_, _, _, createDirectory_error he, .refl⟩ _
    · obtain ⟨k, hk, hdirectories⟩ := hfree hway
      obtain ⟨hlocated, htree, hthere⟩ := hmade hdirectories
      have hdirectory := (h.laid.taken hnew htaken).resolve_left hway
      have hwrite := (write_made htree hlocated hthere hfile hsplit htakes code).2
        (hdirectories.extended.directory _ hdirectory)
      obtain ⟨y, hrun, rfl⟩ := createDirectory_ok hk
      exact FailsToWrite.behind hrun hdirectories.extended
        (FailsToWrite.bind ⟨_, _, _, writeFile_error hwrite, .refl⟩ _)

/-- Files among which one is new coexist only if it is apart from the others. -/
theorem apart_of_coexist {path : List String × String} {more : List (List String × String)}
    (h : Coexist (files ++ path :: more)) (hnew : path.1 ∉ files.map (·.1)) :
    Apart files path.1 := by
  intro f hf
  have hne : f.1 ≠ path.1 := fun heq => hnew (heq ▸ List.mem_map_of_mem hf)
  have hmem : f ∈ files ++ path :: more := List.mem_append_left _ hf
  have hpath : path ∈ files ++ path :: more := List.mem_append_right _ List.mem_cons_self
  exact ⟨fun hshort => hne (h f hmem path hpath hshort),
    fun hlonger => hne (h path hpath f hmem hlonger).symm⟩

/-- Modules are written one after the other, up to the first one that is not apart from those
before it. -/
theorem writeModules_ends (rs : List CompiledRecord) (h : Standing x.disk output here files)
    (hcode : ∀ r ∈ rs, ∃ code, r.outcome = .ok code)
    (htakes : ∀ r ∈ rs, ∀ name ∈ names r.specifier, Disk.Takes name)
    (hnew : (files.map (·.1) ++ rs.map fun r => names r.specifier).Nodup) :
    (Coexist (files ++ rs.map fileOf) → ∃ sizes d,
      Ends ((rs.map fun r => (⟨r, outputPath r.specifier⟩ : Written)).mapM (writeModule output)) x
        (.ok sizes) d ∧ x.disk.Extends d ∧ Standing d output here (files ++ rs.map fileOf)) ∧
    (¬ Coexist (files ++ rs.map fileOf) → FailsToWrite
      ((rs.map fun r => (⟨r, outputPath r.specifier⟩ : Written)).mapM (writeModule output)) x) := by
  induction rs generalizing x files with
  | nil =>
    rw [List.map_nil, List.append_nil, List.map_nil, List.mapM_nil]
    exact ⟨fun _ => ⟨[], x.disk, ⟨x, rfl, rfl⟩, .refl, h⟩, fun hnot => absurd h.laid.coexist hnot⟩
  | cons r rs ih =>
    obtain ⟨hfirst, hcodes⟩ := List.forall_mem_cons.1 hcode
    obtain ⟨htake, htaken⟩ := List.forall_mem_cons.1 htakes
    rw [List.map_cons, List.nodup_append] at hnew
    have hfresh : names r.specifier ∉ files.map (·.1) := fun hmem =>
      hnew.2.2 _ hmem _ List.mem_cons_self rfl
    obtain ⟨hwritten, hrefused⟩ := writeModule_ends h hfirst htake hfresh
    rw [List.map_cons, List.map_cons, List.mapM_cons]
    by_cases hapart : Apart files (names r.specifier)
    · obtain ⟨size, d, hends, hext, hstanding⟩ := hwritten hapart
      have hlater : ((files ++ [fileOf r]).map (·.1) ++
          rs.map fun r => names r.specifier).Nodup := by
        simpa [fileOf, List.nodup_append] using hnew
      obtain ⟨y, hrun, rfl⟩ := hends
      obtain ⟨hall, hsome⟩ := ih hstanding hcodes htaken hlater
      rw [List.append_assoc, List.singleton_append] at hall hsome
      refine ⟨fun hco => ?_, fun hnot => .behind hrun hext ((hsome hnot).bind _)⟩
      obtain ⟨sizes, k, hrest, hlast, hstand⟩ := hall hco
      exact ⟨size :: sizes, k, .behind hrun (hrest.bind_ok fun z hz => ⟨z, rfl, hz⟩),
        hext.trans hlast, hstand⟩
    · exact ⟨fun hco => absurd (apart_of_coexist hco hfresh) hapart,
        fun _ => (hrefused hapart).bind _⟩

/-- The manifest is written unless a directory is in its place. -/
theorem writeManifest_ends (h : Standing x.disk output here files)
    (hnew : [manifestName] ∉ files.map (·.1)) (text : String) :
    (Apart files [manifestName] → ∃ d,
      Ends (writeFile (FilePath.joinText output manifestName) text) x (.ok ()) d ∧
        Laid d here (files ++ [([manifestName], text)])) ∧
    (¬ Apart files [manifestName] →
      FailsToWrite (writeFile (FilePath.joinText output manifestName) text) x) := by
  have hthere : x.disk.node? (here ++ []) = some .directory := by simpa using h.laid.there
  have htakes : ∀ s ∈ [] ++ [manifestName], Disk.Takes s := by
    rw [List.nil_append, List.forall_mem_singleton]
    exact ⟨by decide, by decide, by decide, by decide, by decide⟩
  have hfile : manifestName.toList.head? ≠ some '/' := by decide
  have hsplit : FilePath.split manifestName = [] ++ [manifestName] := by decide
  obtain ⟨hfree, hdirectory⟩ :=
    write_made h.laid.tree h.located hthere hfile hsplit htakes text
  constructor
  · intro hapart
    obtain ⟨hnone, hlaid⟩ := h.laid.put hapart (h.laid.tree.made_self hthere) text
    exact ⟨_, writeFile_ok (hfree fun hnode => by rw [hnone] at hnode; cases hnode), hlaid⟩
  · intro htaken
    have hplace := (h.laid.taken hnew htaken).resolve_left (h.laid.tree.not_blocked hthere)
    exact ⟨_, _, _, writeFile_error (hdirectory hplace), .refl⟩

end

/-! ## All modules of a graph -/

/-- What is done with a graph whose modules are written. -/
def emission (output : String) (g : Graph) : Action Unit := do
  let modules ← ofExcept .collision (Emit.outputs g)
  createDirectory output
  let sizes ← modules.mapM (writeModule output)
  let size := sizes.foldl (· + ·) 0
  writeFile (FilePath.joinText output manifestName)
    ((manifest g.entries modules).renderPretty 0)
  tell (.success s!"Wrote {g.size} modules ({Text.sizeText size}) to {output}" "")

/-- The command does this with the graph that it resolved. -/
theorem run_emitCommand {around : Surroundings} {named : Option String} {raws : List String}
    {a : LoaderArguments} {g : Graph} {x y : Effects}
    (h : (graphOf around named raws a).run x = (.ok g, y)) (output : String) :
    (emitCommand around named raws a output).run x = (emission output g).run y := by
  change (graphOf around named raws a >>= emission output).run x = _
  rw [Ends.run_bind, h]
  rfl

/-- The files of a graph. -/
def filesOf (g : Graph) : List (List String × String) := g.records.map fileOf ++ [manifestFile g]

/-- An output directory is created, and there is nothing in it. -/
structure Fresh (d k : Disk) (output : String) (here : List String) : Prop where
  created : d.createDirectories output = .ok k
  located : k.locate output = .ok here
  there : k.node? here = some .directory
  empty : ∀ below, below ≠ [] → k.node? (here ++ below) = none

theorem Fresh.standing {d k : Disk} {output : String} {here : List String}
    (h : Fresh d k output here) : Standing k output here [] where
  located := h.located
  laid :=
    { file := by simp
      directory := by simpa using h.there
      nothing := fun below hbelow _ => h.empty below hbelow }

theorem nodup_names {g : Graph} {paths : List (List (List Char))} (h : g.outputPaths = .ok paths) :
    (g.records.map fun r => names r.specifier).Nodup := by
  have hinjective : Function.Injective fun path : List (List Char) => path.map String.ofList :=
    List.map_injective_iff.2 fun _ _ => String.ofList_injective
  have hnodup := (Graph.claimPaths_ok h).2.1.map hinjective
  rwa [List.map_map, List.map_map] at hnodup

/-- What is done once the output directory is there. -/
def writeAll (output : String) (g : Graph) : Action Unit := do
  let sizes ← (written g).mapM (writeModule output)
  let size := sizes.foldl (· + ·) 0
  writeFile (FilePath.joinText output manifestName) (manifestFile g).2
  tell (.success s!"Wrote {g.size} modules ({Text.sizeText size}) to {output}" "")

theorem emission_eq_writeAll {g : Graph} {paths : List (List (List Char))}
    (h : g.outputPaths = .ok paths) (output : String) :
    emission output g = (do createDirectory output; writeAll output g) := by
  simp only [emission, Graph.outputs_of_outputPaths h, Action.ofExcept, pure_bind]
  rfl

section

variable {g : Graph} {paths : List (List (List Char))} {x : Effects} {k : Disk} {output : String}
  {here : List String}

theorem manifest_notMem (g : Graph) : [manifestName] ∉ (g.records.map fileOf).map (·.1) := by
  intro hmem
  obtain ⟨f, hf, hname⟩ := List.mem_map.1 hmem
  obtain ⟨r, -, rfl⟩ := List.mem_map.1 hf
  obtain ⟨directories, name, hnames, hother⟩ := names_eq_concat r.specifier
  obtain ⟨-, hlast⟩ := List.append_inj' ((hnames.symm.trans hname).trans
    (List.nil_append [manifestName]).symm) rfl
  exact hother (List.singleton_inj.1 hlast)

/-- In an empty output directory the modules of a graph and its manifest are all written, or a write
fails. -/
theorem writeAll_ends (hpaths : g.outputPaths = .ok paths) (hready : g.Ready)
    (hwritable : Writable g) (h : Standing x.disk output here []) :
    (Coexist (filesOf g) →
      ∃ d, Ends (writeAll output g) x (.ok ()) d ∧ Laid d here (filesOf g)) ∧
    (¬ Coexist (filesOf g) → FailsToWrite (writeAll output g) x) := by
  have htakes : ∀ r ∈ g.records, ∀ name ∈ names r.specifier, Disk.Takes name := fun r hr =>
    hwritable.takes (List.mem_map_of_mem hr)
  obtain ⟨hall, hsome⟩ := writeModules_ends g.records h hready htakes
    (by simpa using nodup_names hpaths)
  rw [List.nil_append] at hall hsome
  by_cases hmodules : Coexist (g.records.map fileOf)
  · obtain ⟨sizes, d, ⟨z, hrun, rfl⟩, hext, hstanding⟩ := hall hmodules
    obtain ⟨hfree, htaken⟩ := writeManifest_ends hstanding (manifest_notMem g) (manifestFile g).2
    by_cases hapart : Apart (g.records.map fileOf) [manifestName]
    · obtain ⟨d, hends, hlaid⟩ := hfree hapart
      refine ⟨fun _ => ⟨d, ?_, hlaid⟩, fun hnot => absurd hlaid.coexist hnot⟩
      exact .behind hrun (hends.bind_ok fun u hu => ⟨_, rfl, hu⟩)
    · exact ⟨fun hco => absurd (apart_of_coexist hco (manifest_notMem g)) hapart,
        fun _ => .behind hrun hext ((htaken hapart).bind _)⟩
  · refine ⟨fun hco => absurd (fun f hf other hother => ?_) hmodules,
      fun _ => (hsome hmodules).bind _⟩
    exact hco f (List.mem_append_left _ hf) other (List.mem_append_left _ hother)

/-- The modules of a graph with paths of their own, and its manifest, are written into an empty
directory exactly if no path leads through the file of another module or of the manifest. Otherwise
the command fails with a write, once the output directory is there. -/
theorem emission_ends_iff_coexist (hpaths : g.outputPaths = .ok paths) (hready : g.Ready)
    (hwritable : Writable g) (hfresh : Fresh x.disk k output here) :
    (Coexist (filesOf g) → ∃ d, Ends (emission output g) x (.ok ()) d ∧ Laid d here (filesOf g)) ∧
    (¬ Coexist (filesOf g) → ∃ path fault d,
      Ends (emission output g) x (.error (.write path fault)) d ∧ k.Extends d) := by
  obtain ⟨y, hcreated, rfl⟩ := createDirectory_ok hfresh.created
  obtain ⟨hall, hsome⟩ := writeAll_ends hpaths hready hwritable hfresh.standing
  rw [emission_eq_writeAll hpaths]
  constructor
  · intro hco
    obtain ⟨d, hends, hlaid⟩ := hall hco
    exact ⟨d, .behind hcreated hends, hlaid⟩
  · intro hnot
    obtain ⟨path, fault, d, hends, hext⟩ := hsome hnot
    exact ⟨path, fault, d, .behind hcreated hends, hext⟩

end

/-- A module, and another one in a directory that is named like the file of the first. -/
def nestedGraph : Graph where
  entries := [⟨"/a"⟩]
  records :=
    [{ specifier := ⟨"/a"⟩, location := "/a.ts", outcome := .ok "export const a = 1;\n",
       report := { isModule := true, static := [⟨"/a.js/b"⟩] } },
     { specifier := ⟨"/a.js/b"⟩, location := "/a.js/b.ts", outcome := .ok "export const b = 1;\n",
       report := { isModule := true } }]

/-- The two modules have paths of their own, and cannot both be written. -/
theorem nestedGraph_fails_to_write :
    nestedGraph.outputPaths = .ok [["a.js".toList], ["a.js".toList, "b.js".toList]] ∧
      ∃ path fault d, Ends (emission "dist" nestedGraph) { disk := {} }
        (.error (.write path fault)) d := by
  have hpaths : nestedGraph.outputPaths =
      .ok [["a.js".toList], ["a.js".toList, "b.js".toList]] := by rfl
  have hready : nestedGraph.Ready := by
    simp [Graph.Ready, nestedGraph]
  have hwritable : Writable nestedGraph := by
    have hshort : ∀ name ∈ ["a.js", "b.js"],
        name.utf8ByteSize ≤ Disk.maxName ∧ '\x00' ∉ name.toList := by decide
    have hnames : ∀ s ∈ nestedGraph.specifiers, ∀ name ∈ names s, name ∈ ["a.js", "b.js"] := by
      decide +kernel
    exact fun s hs name hname => hshort name (hnames s hs name hname)
  have hfresh : Fresh {} (Disk.put {} ["home", "dist"] .directory) "dist" ["home", "dist"] := by
    refine ⟨?_, by rfl, by decide, ?_⟩
    · exact @Disk.createFrom_of_createOne _ _ _ "dist" [] (by rfl)
    · intro below hbelow
      obtain ⟨name, more, rfl⟩ := List.exists_cons_of_ne_nil hbelow
      rfl
  have hnot : ¬ Coexist (filesOf nestedGraph) := by
    intro hco
    have hsame : names ⟨"/a"⟩ = names ⟨"/a.js/b"⟩ :=
      hco _ List.mem_cons_self _ (List.mem_cons_of_mem _ List.mem_cons_self) (by decide +kernel)
    exact absurd hsame (by decide +kernel)
  obtain ⟨path, fault, d, hends, -⟩ :=
    (emission_ends_iff_coexist hpaths hready hwritable (x := { disk := {} }) hfresh).2 hnot
  exact ⟨hpaths, path, fault, d, hends⟩

end Cli

end ScriptLoader
