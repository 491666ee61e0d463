import Mathlib.Data.List.Basic
import ScriptLoader.Compile.Splice

/-!
# Edits that can be applied

* `Edit.Apart`: two edits of which one ends before the other begins. Edits with characters are
  disjoint once they are sorted exactly if they are apart (`disjoint_sortEdits_iff`).
* `splice_ok_iff`: such edits can be applied exactly if they are apart.
-/

namespace ScriptLoader.Compile

open Syntax (Span)

variable {cs : List Char} {es : List Edit}

/-- The edit replaces at least one character, and only characters of the text. -/
def Edit.Fits (e : Edit) (size : Nat) : Prop :=
  e.span.start < e.span.stop ∧ e.span.stop ≤ size

/-- One of the spans ends before the other one begins. -/
def Apart (s t : Span) : Prop := s.stop ≤ t.start ∨ t.stop ≤ s.start

theorem Apart.symm {s t : Span} (h : Apart s t) : Apart t s := Or.symm h

/-- One of the edits ends before the other one begins. -/
def Edit.Apart (e f : Edit) : Prop := Compile.Apart e.span f.span

theorem Edit.Apart.symm {e f : Edit} (h : e.Apart f) : f.Apart e := Or.symm h

/-! ## Sorting -/

theorem disjoint_iff : Disjoint es ↔
    (∀ e ∈ es, e.span.start ≤ e.span.stop) ∧
      es.Pairwise fun e f => e.span.stop ≤ f.span.start := by
  induction es with
  | nil => simp [Disjoint]
  | cons e es ih =>
    simp only [Disjoint, ih, List.forall_mem_cons, List.pairwise_cons]
    tauto

theorem sortEdits_perm (es : List Edit) : (sortEdits es).Perm es := List.mergeSort_perm _ _

/-- Items that are sorted by their places. -/
theorem pairwise_mergeSort_place {α : Type} (place : α → Nat) (as : List α) :
    (as.mergeSort fun a b => decide (place a ≤ place b)).Pairwise fun a b =>
      place a ≤ place b := by
  refine (List.pairwise_mergeSort (fun a b c hab hbc => ?_) (fun a b => ?_) as).imp
    of_decide_eq_true
  · simp only [decide_eq_true_eq] at hab hbc ⊢
    omega
  · simp only [Bool.or_eq_true, decide_eq_true_eq]
    omega

theorem sorted_sortEdits (es : List Edit) :
    (sortEdits es).Pairwise fun e f => e.span.start ≤ f.span.start :=
  pairwise_mergeSort_place (fun e => e.span.start) es

/-- Edits that are apart are disjoint in the order of their starts. -/
theorem disjoint_sortEdits_iff (h : ∀ e ∈ es, e.span.start < e.span.stop) :
    Disjoint (sortEdits es) ↔ es.Pairwise Edit.Apart := by
  have hsorted : ∀ e ∈ sortEdits es, e.span.start < e.span.stop :=
    fun e he => h e ((sortEdits_perm es).mem_iff.1 he)
  rw [← (sortEdits_perm es).pairwise_iff Edit.Apart.symm, disjoint_iff]
  constructor
  · exact fun hd => hd.2.imp Or.inl
  · refine fun ha => ⟨fun e he => Nat.le_of_lt (hsorted e he), ?_⟩
    refine (ha.and (sorted_sortEdits es)).imp_of_mem fun {e f} he hf hef => ?_
    obtain ⟨hef | hfe, hle⟩ := hef
    · exact hef
    · have := hsorted f hf
      omega

/-! ## Applying -/

theorem sliceAt_ok_iff {s : Span} :
    (∃ kept, sliceAt cs s = .ok kept) ↔ s.start ≤ s.stop ∧ s.stop ≤ cs.length := by
  unfold sliceAt
  split
  · next h => exact ⟨fun _ => h, fun _ => ⟨_, rfl⟩⟩
  · next h => exact ⟨by rintro ⟨_, ⟨⟩⟩, fun hs => absurd hs h⟩

/-- Edits can be applied one after the other exactly if each begins behind the one in front. -/
theorem spliceFrom_ok_iff {pos : Nat} (hpos : pos ≤ cs.length)
    (h : ∀ e ∈ es, e.Fits cs.length) :
    (∃ text, spliceFrom cs pos es = .ok text) ↔
      (∀ e ∈ es, pos ≤ e.span.start) ∧ Disjoint es := by
  induction es generalizing pos with
  | nil =>
    unfold spliceFrom
    simp [sliceAt_ok_iff, hpos, Disjoint]
  | cons e es ih =>
    obtain ⟨⟨hlt, hle⟩, hes⟩ := List.forall_mem_cons.1 h
    unfold spliceFrom
    by_cases hfirst : pos ≤ e.span.start
    · obtain ⟨kept, hkept⟩ : ∃ kept, sliceAt cs ⟨pos, e.span.start⟩ = .ok kept :=
        sliceAt_ok_iff.2 ⟨hfirst, Nat.le_trans (Nat.le_of_lt hlt) hle⟩
      have hrest : (∃ text,
          (spliceFrom cs e.span.stop es).map (fun rest => kept ++ e.text ++ rest) = .ok text) ↔
          ∃ text, spliceFrom cs e.span.stop es = .ok text := by
        cases spliceFrom cs e.span.stop es <;> simp [Except.map]
      rw [hkept]
      dsimp only
      rw [hrest, ih hle hes]
      simp only [Disjoint, List.forall_mem_cons, hfirst, Nat.le_of_lt hlt, true_and]
      constructor
      · rintro ⟨hbehind, hd⟩
        exact ⟨fun f hf => by have := hbehind f hf; omega, hbehind, hd⟩
      · exact fun hd => hd.2
    · have hgap : sliceAt cs ⟨pos, e.span.start⟩ = .error ⟨pos, e.span.start⟩ :=
        if_neg fun hs => hfirst hs.1
      rw [hgap]
      simp [hfirst]

/-- Edits can be applied exactly if they are apart. -/
theorem splice_ok_iff (h : ∀ e ∈ es, e.Fits cs.length) :
    (∃ text, splice cs es = .ok text) ↔ es.Pairwise Edit.Apart := by
  have hsorted : ∀ e ∈ sortEdits es, e.Fits cs.length :=
    fun e he => h e ((sortEdits_perm es).mem_iff.1 he)
  rw [splice, spliceFrom_ok_iff (Nat.zero_le _) hsorted,
    disjoint_sortEdits_iff fun e he => (h e he).1]
  exact and_iff_right fun e _ => Nat.zero_le _

end ScriptLoader.Compile
