import ScriptLoader.Proofs.Compile.Woven
import ScriptLoader.Proofs.Text.Bytes

/-!
# A text with its spans replaced

Edits are sorted before they are applied, and a cursor goes through the text behind them. What
becomes of a text can be said without either: place by place, a patch stands where its span begins,
and all that no span covers stands where it was.

* `replaced`: a list with spans replaced, whatever the order the patches are given in.
* `replaced_of_queued`: for patches that lie one behind the other it is what a cursor lays out.
* `bytes_laid`: the bytes of what is laid out are the bytes of the text with spans of bytes
  replaced.
* `finish_replaces`: edits that are apart always make that text, behind the statements in front.
-/

namespace ScriptLoader.Compile

open Syntax (Span)

open scoped List

/-! ## Place by place -/

section Places

variable {α : Type}

/-- What stands for a span of a list. -/
structure Patch (α : Type) where
  span : Span
  text : List α

/-- What becomes of a place: the patches of the spans that begin there, and then what was there,
unless a span covers it. -/
def place (xs : List α) (ps : List (Patch α)) (i : Nat) : List α :=
  (ps.filter fun p => p.span.start = i).flatMap Patch.text ++
    if ∃ p ∈ ps, p.span.start ≤ i ∧ i < p.span.stop then [] else xs[i]?.toList

/-- A list with spans replaced. -/
def replaced (xs : List α) (ps : List (Patch α)) : List α :=
  (List.range xs.length).flatMap (place xs ps)

/-- The patches lie one behind the other in a list, and none begins before `pos`. -/
structure Queued (pos size : Nat) (ps : List (Patch α)) : Prop where
  front : ∀ p ∈ ps, pos ≤ p.span.start
  fits : ∀ p ∈ ps, p.span.start < p.span.stop ∧ p.span.stop ≤ size
  order : ps.Pairwise fun p q => p.span.stop ≤ q.span.start

variable {xs : List α} {p : Patch α} {ps qs : List (Patch α)} {pos stop size i : Nat}

theorem Queued.tail (h : Queued pos size (p :: ps)) : Queued p.span.stop size ps :=
  ⟨(List.pairwise_cons.1 h.order).1, fun q hq => h.fits q (List.mem_cons_of_mem _ hq),
    (List.pairwise_cons.1 h.order).2⟩

theorem Queued.starts (h : Queued pos size ps) :
    ps.Pairwise fun p q => p.span.start ≠ q.span.start := by
  refine h.order.imp_of_mem fun {p q} hp hq hpq => ?_
  have := (h.fits p hp).1
  omega

/-- The order of patches does not matter to a place, for no two of them begin there. -/
theorem place_perm (h : qs.Pairwise fun p q => p.span.start ≠ q.span.start) (hperm : ps ~ qs) :
    place xs ps = place xs qs := by
  funext i
  have alone : ∀ {rs : List (Patch α)}, (rs.Pairwise fun p q => p.span.start ≠ q.span.start) →
      (rs.filter fun p => p.span.start = i).Pairwise fun _ _ => False := by
    intro rs hrs
    refine (hrs.filter _).imp_of_mem fun {p q} hp hq hpq => hpq ?_
    simp only [List.mem_filter, decide_eq_true_eq] at hp hq
    exact hp.2.trans hq.2.symm
  have hstarts : ps.Pairwise fun p q => p.span.start ≠ q.span.start :=
    (hperm.pairwise_iff fun h => h.symm).2 h
  have hfilter : (ps.filter fun p => p.span.start = i) = qs.filter fun p => p.span.start = i :=
    List.Perm.eq_of_pairwise (fun _ _ _ _ h => h.elim) (alone hstarts) (alone h)
      (hperm.filter _)
  simp only [place, hfilter, hperm.mem_iff]

/-! ## One piece behind the other -/

/-- The list from `pos` on, with patches put in behind the gaps in front of them. -/
def laid (xs : List α) : Nat → List (Patch α) → List α
  | pos, [] => xs.drop pos
  | pos, p :: ps => (xs.drop pos).take (p.span.start - pos) ++ p.text ++ laid xs p.span.stop ps

theorem place_kept (h : ∀ p ∈ ps, i < p.span.start) : place xs ps i = xs[i]?.toList := by
  have hnone : (ps.filter fun p => p.span.start = i) = [] := by
    refine List.filter_eq_nil_iff.2 fun p hp => ?_
    have := h p hp
    simp only [decide_eq_true_eq]
    omega
  have hopen : ¬ ∃ p ∈ ps, p.span.start ≤ i ∧ i < p.span.stop := by
    rintro ⟨p, hp, hstart, -⟩
    have := h p hp
    omega
  rw [place, hnone, if_neg hopen, List.flatMap_nil, List.nil_append]

/-- Places that no patch reaches are kept. -/
theorem flatMap_kept (hpos : pos ≤ stop) (hstop : stop ≤ xs.length)
    (h : ∀ p ∈ ps, stop ≤ p.span.start) :
    (List.range' pos (stop - pos)).flatMap (place xs ps) = (xs.drop pos).take (stop - pos) := by
  obtain ⟨n, rfl⟩ := Nat.exists_eq_add_of_le hpos
  rw [Nat.add_sub_cancel_left]
  induction n generalizing pos with
  | zero => rfl
  | succ n ih =>
    have hlt : pos < xs.length := by omega
    have hplace : place xs ps pos = [xs[pos]] := by
      rw [place_kept fun p hp => by have := h p hp; omega, List.getElem?_eq_getElem hlt]
      rfl
    have hnext : pos + 1 + n = pos + (n + 1) := by omega
    rw [List.range'_succ, List.flatMap_cons, hplace, List.drop_eq_getElem_cons hlt,
      List.take_succ_cons, ih (Nat.le_add_right _ _) (hnext ▸ hstop) (hnext ▸ h)]
    rfl

/-- The places of the first span hold its patch, and nothing else. -/
theorem flatMap_first (h : Queued pos size (p :: ps)) :
    (List.range' p.span.start (p.span.stop - p.span.start)).flatMap (place xs (p :: ps)) =
      p.text := by
  obtain ⟨hlt, -⟩ := h.fits p List.mem_cons_self
  have hothers : ∀ i, i < p.span.stop → (ps.filter fun q => q.span.start = i) = [] := by
    intro i hi
    refine List.filter_eq_nil_iff.2 fun q hq => ?_
    have := h.tail.front q hq
    simp only [decide_eq_true_eq]
    omega
  have hcovered : ∀ i, p.span.start ≤ i → i < p.span.stop →
      ∃ q ∈ p :: ps, q.span.start ≤ i ∧ i < q.span.stop :=
    fun i hstart hstop => ⟨p, List.mem_cons_self, hstart, hstop⟩
  obtain ⟨n, hn⟩ : ∃ n, p.span.stop - p.span.start = n + 1 :=
    Nat.exists_eq_succ_of_ne_zero (by omega)
  rw [hn, List.range'_succ, List.flatMap_cons]
  have hbegin : place xs (p :: ps) p.span.start = p.text := by
    rw [place, if_pos (hcovered _ (Nat.le_refl _) hlt), List.filter_cons_of_pos (by simp),
      hothers _ hlt]
    simp
  have hrest : (List.range' (p.span.start + 1) n).flatMap (place xs (p :: ps)) = [] := by
    refine List.flatMap_eq_nil_iff.2 fun i hi => ?_
    obtain ⟨hlow, hhigh⟩ := List.mem_range'_1.1 hi
    rw [place, if_pos (hcovered i (by omega) (by omega)),
      List.filter_cons_of_neg (by simp only [decide_eq_true_eq]; omega), hothers i (by omega)]
    rfl
  rw [hbegin, hrest, List.append_nil]

/-- Places behind the first span are as if it were not replaced. -/
theorem place_behind (h : p.span.start < p.span.stop) (hi : p.span.stop ≤ i) :
    place xs (p :: ps) i = place xs ps i := by
  have hcover : (∃ q ∈ p :: ps, q.span.start ≤ i ∧ i < q.span.stop) ↔
      ∃ q ∈ ps, q.span.start ≤ i ∧ i < q.span.stop := by
    rw [List.exists_mem_cons_iff]
    exact or_iff_right fun hp => by omega
  rw [place, place, List.filter_cons_of_neg (by simp only [decide_eq_true_eq]; omega)]
  simp only [hcover]

/-- The places from `pos` on are the gaps and the patches one behind the other. -/
theorem flatMap_place (h : Queued pos xs.length ps) (hpos : pos ≤ xs.length) :
    (List.range' pos (xs.length - pos)).flatMap (place xs ps) = laid xs pos ps := by
  induction ps generalizing pos with
  | nil =>
    rw [flatMap_kept hpos (Nat.le_refl _) (by simp)]
    exact List.take_of_length_le (Nat.le_of_eq List.length_drop)
  | cons p ps ih =>
    have hfront := h.front p List.mem_cons_self
    obtain ⟨hlt, hstop⟩ := h.fits p List.mem_cons_self
    have hstarts : ∀ q ∈ p :: ps, p.span.start ≤ q.span.start := by
      refine List.forall_mem_cons.2 ⟨Nat.le_refl _, fun q hq => ?_⟩
      have := h.tail.front q hq
      omega
    have hsplit : List.range' pos (xs.length - pos) =
        List.range' pos (p.span.start - pos) ++
          (List.range' p.span.start (p.span.stop - p.span.start) ++
            List.range' p.span.stop (xs.length - p.span.stop)) := by
      have hsize : xs.length - pos = (p.span.start - pos) +
          ((p.span.stop - p.span.start) + (xs.length - p.span.stop)) := by omega
      have hgap : pos + (p.span.start - pos) = p.span.start := by omega
      have hover : p.span.start + (p.span.stop - p.span.start) = p.span.stop := by omega
      rw [hsize, ← List.range'_append_1, hgap, ← List.range'_append_1, hover]
    have hbehind : (List.range' p.span.stop (xs.length - p.span.stop)).flatMap
        (place xs (p :: ps)) = laid xs p.span.stop ps := by
      rw [← ih h.tail hstop]
      exact List.flatMap_congr fun i hi => place_behind hlt (List.mem_range'_1.1 hi).1
    rw [hsplit, List.flatMap_append, List.flatMap_append, hbehind, flatMap_first h,
      flatMap_kept hfront (Nat.le_trans (Nat.le_of_lt hlt) hstop) hstarts]
    simp only [laid, List.append_assoc]

/-- A list with spans replaced is laid out by going through the patches in their order. -/
theorem replaced_of_queued (h : Queued 0 xs.length qs) (hperm : ps ~ qs) :
    replaced xs ps = laid xs 0 qs := by
  rw [replaced, place_perm h.starts hperm, List.range_eq_range']
  exact flatMap_place h (Nat.zero_le _)

end Places

/-! ## Characters and bytes -/

/-- An edit of the characters of a text. -/
def Edit.patch (e : Edit) : Patch Char := ⟨e.span, e.text⟩

/-- The number of bytes in front of a character. -/
def offset (source : List Char) (i : Nat) : Nat := byteCount (source.take i)

/-- An edit of the bytes of a text: it begins and ends where characters begin. -/
def Edit.bytePatch (source : List Char) (e : Edit) : Patch UInt8 :=
  ⟨⟨offset source e.span.start, offset source e.span.stop⟩, Text.bytes e.text⟩

variable {source : List Char} {es fs : List Edit} {pos i j : Nat}

theorem length_bytes (cs : List Char) : (Text.bytes cs).length = byteCount cs := by
  have hfrom : ∀ n, cs.foldl (fun n c => n + c.utf8Size) n = n + (Text.bytes cs).length := by
    induction cs with
    | nil => exact fun n => rfl
    | cons c cs ih =>
      intro n
      rw [List.foldl_cons, ih, Text.bytes_cons, List.length_append, String.length_utf8EncodeChar]
      omega
  rw [byteCount, hfrom, Nat.zero_add]

theorem offset_eq_add (h : i ≤ j) :
    offset source j = offset source i + byteCount ((source.drop i).take (j - i)) := by
  have hsplit : source.take j = source.take i ++ (source.drop i).take (j - i) := by
    rw [← List.take_add, Nat.add_sub_of_le h]
  simp only [offset, ← length_bytes]
  rw [hsplit, Text.bytes_append, List.length_append]

theorem offset_le (h : i ≤ j) : offset source i ≤ offset source j := by
  rw [offset_eq_add h]
  exact Nat.le_add_right _ _

theorem offset_lt (h : i < j) (hj : j ≤ source.length) : offset source i < offset source j := by
  have hi : i < source.length := by omega
  obtain ⟨n, hn⟩ : ∃ n, j - i = n + 1 := Nat.exists_eq_succ_of_ne_zero (by omega)
  have hsize := Char.utf8Size_pos source[i]
  rw [offset_eq_add (Nat.le_of_lt h), List.drop_eq_getElem_cons hi, hn, List.take_succ_cons,
    ← length_bytes, Text.bytes_cons, List.length_append, String.length_utf8EncodeChar]
  omega

theorem offset_length : offset source source.length = (Text.bytes source).length := by
  rw [offset, List.take_length, length_bytes]

theorem bytes_drop : Text.bytes (source.drop i) = (Text.bytes source).drop (offset source i) := by
  have hsplit : Text.bytes source = Text.bytes (source.take i) ++ Text.bytes (source.drop i) := by
    rw [← Text.bytes_append, List.take_append_drop]
  have hsize : (Text.bytes (source.take i)).length = offset source i := length_bytes _
  rw [hsplit, List.drop_left' hsize]

/-- The bytes of a gap are a gap of the bytes. -/
theorem bytes_gap (h : i ≤ j) : Text.bytes ((source.drop i).take (j - i)) =
    ((Text.bytes source).drop (offset source i)).take (offset source j - offset source i) := by
  have hsplit : Text.bytes (source.drop i) = Text.bytes ((source.drop i).take (j - i)) ++
      Text.bytes ((source.drop i).drop (j - i)) := by
    rw [← Text.bytes_append, List.take_append_drop]
  have hsize : (Text.bytes ((source.drop i).take (j - i))).length =
      offset source j - offset source i := by
    rw [length_bytes, offset_eq_add h, Nat.add_sub_cancel_left]
  rw [← bytes_drop, hsplit, List.take_left' hsize]

/-- What is laid out for characters is laid out for their bytes. -/
theorem bytes_laid (h : Queued pos source.length (es.map Edit.patch)) :
    Text.bytes (laid source pos (es.map Edit.patch)) =
      laid (Text.bytes source) (offset source pos) (es.map (Edit.bytePatch source)) := by
  induction es generalizing pos with
  | nil => exact bytes_drop
  | cons e es ih =>
    have hfront : pos ≤ e.span.start := h.front e.patch List.mem_cons_self
    have hrest : Queued e.span.stop source.length (es.map Edit.patch) := h.tail
    simp only [List.map_cons, laid, Text.bytes_append, Edit.patch, Edit.bytePatch]
    exact congrArg₂ (· ++ ·) (congrArg (· ++ _) (bytes_gap hfront)) (ih hrest)

/-- Edits of characters that lie one behind the other do so as edits of bytes. -/
theorem queued_bytes (h : Queued pos source.length (es.map Edit.patch)) :
    Queued (offset source pos) (Text.bytes source).length
      (es.map (Edit.bytePatch source)) := by
  refine ⟨List.forall_mem_map.2 fun e he => ?_, List.forall_mem_map.2 fun e he => ?_,
    List.pairwise_map.2 ((List.pairwise_map.1 h.order).imp fun hle => offset_le hle)⟩
  · exact offset_le (h.front e.patch (List.mem_map_of_mem he))
  · obtain ⟨hlt, hstop⟩ : e.span.start < e.span.stop ∧ e.span.stop ≤ source.length :=
      h.fits e.patch (List.mem_map_of_mem he)
    exact ⟨offset_lt hlt hstop, offset_length ▸ offset_le hstop⟩

/-! ## The finished text -/

/-- Statements in front of a text, on one line. -/
def lead (statements : List String) : List Char :=
  match statements with
  | [] => []
  | _ => (" ".intercalate statements ++ " ").toList

/-- A text with edits applied, behind statements. -/
def finish (statements : List String) (source : List Char) (es : List Edit) :
    Except Span (List Char) :=
  (splice source es).map (lead statements ++ ·)

/-- Plans are finished with the statements they put in front. -/
theorem apply_eq_finish (p : Linked.Plan) (source : List Char) :
    p.apply source = finish (p.hoists.map Linked.Hoist.text) source p.edits := by
  have hlead : Linked.preface p.hoists = lead (p.hoists.map Linked.Hoist.text) := by
    cases p.hoists <;> rfl
  rw [Linked.Plan.apply, finish, hlead]

/-- Behind each statement in front stands one blank. -/
theorem lead_eq (statements : List String) :
    lead statements = statements.flatMap fun s => s.toList ++ [' '] := by
  induction statements with
  | nil => rfl
  | cons s statements ih =>
    cases statements with
    | nil => simp [lead]
    | cons t statements =>
      rw [List.flatMap_cons, ← ih]
      simp [lead]

theorem edited_eq_laid (cs : List Char) (pos : Nat) (es : List Edit) :
    edited cs pos cs.length es = laid cs pos (es.map Edit.patch) := by
  induction es generalizing pos with
  | nil => exact List.take_of_length_le (Nat.le_of_eq List.length_drop)
  | cons e es ih =>
    simp only [edited, List.map_cons, laid, ih]
    rfl

theorem queued_sortEdits (hfits : ∀ e ∈ es, e.Fits source.length)
    (hapart : es.Pairwise Edit.Apart) :
    Queued 0 source.length ((sortEdits es).map Edit.patch) := by
  have hdisjoint := (disjoint_sortEdits_iff fun e he => (hfits e he).1).2 hapart
  refine ⟨fun _ _ => Nat.zero_le _, List.forall_mem_map.2 fun e he => ?_,
    List.pairwise_map.2 (disjoint_iff.1 hdisjoint).2⟩
  exact hfits e ((sortEdits_perm es).mem_iff.1 he)

/-- The order that edits are recorded in does not matter. -/
theorem splice_eq_laid (hfits : ∀ e ∈ es, e.Fits source.length)
    (hapart : es.Pairwise Edit.Apart) (hperm : fs ~ es) :
    splice source fs = .ok (laid source 0 ((sortEdits es).map Edit.patch)) := by
  have hdisjoint := (disjoint_sortEdits_iff fun e he => (hfits e he).1).2 hapart
  have hbetween : Between 0 source.length (sortEdits es) :=
    between_of_disjoint hdisjoint (Nat.zero_le _) fun e he =>
      ⟨Nat.zero_le _, hfits e ((sortEdits_perm es).mem_iff.1 he)⟩
  have hsort : sortEdits fs = sortEdits es :=
    sortEdits_eq hbetween (hperm.trans (sortEdits_perm es).symm)
  obtain ⟨text, htext⟩ := (splice_ok_iff hfits).2 hapart
  rw [splice, hsort, ← splice, htext, edited_of_spliceFrom htext, edited_eq_laid]

/-- Edits that are not empty, lie in the text and are apart can always be applied, in whatever order
they were recorded. What they make is the statements in front, with one blank behind each, and
then the text with its spans replaced; and the bytes of it are those of the statements and of the
text with the spans of its bytes replaced. That is what a plan with these statements and edits
makes. -/
theorem finish_replaces (statements : List String) (hfits : ∀ e ∈ es, e.Fits source.length)
    (hapart : es.Pairwise Edit.Apart) :
    ∃ text : List Char,
      (∀ fs, fs ~ es → finish statements source fs = .ok text) ∧
      text = (statements.flatMap fun s => s.toList ++ [' ']) ++
        replaced source (es.map Edit.patch) ∧
      Text.bytes text = (statements.flatMap fun s => Text.bytes (s.toList ++ [' '])) ++
        replaced (Text.bytes source) (es.map (Edit.bytePatch source)) ∧
      ∀ p : Linked.Plan, p.hoists.map Linked.Hoist.text = statements → p.edits ~ es →
        p.apply source = .ok text := by
  have hqueued := queued_sortEdits hfits hapart
  have hsorted : es ~ sortEdits es := (sortEdits_perm es).symm
  have htext := replaced_of_queued hqueued (hsorted.map Edit.patch)
  have hbytes := replaced_of_queued (queued_bytes hqueued) (hsorted.map (Edit.bytePatch source))
  have hfinish : ∀ fs, fs ~ es → finish statements source fs =
      .ok ((statements.flatMap fun s => s.toList ++ [' ']) ++
        replaced source (es.map Edit.patch)) := by
    intro fs hperm
    rw [finish, splice_eq_laid hfits hapart hperm, lead_eq, htext]
    rfl
  refine ⟨_, hfinish, rfl, ?_, fun p hp hperm => ?_⟩
  · have hfront : Text.bytes (statements.flatMap fun s => s.toList ++ [' ']) =
        statements.flatMap fun s => Text.bytes (s.toList ++ [' ']) := List.flatMap_assoc
    rw [Text.bytes_append, hfront, htext, bytes_laid hqueued, hbytes]
    rfl
  · rw [apply_eq_finish, hp]
    exact hfinish p.edits hperm

/-- Two edits that touch, the later one recorded first, behind a character of two bytes. -/
theorem finish_replaces_touching :
    ∃ text : List Char,
      finish ["a;", "b;"] "é12z".toList [⟨⟨2, 3⟩, ['w']⟩, ⟨⟨1, 2⟩, []⟩] = .ok text ∧
      finish ["a;", "b;"] "é12z".toList [⟨⟨1, 2⟩, []⟩, ⟨⟨2, 3⟩, ['w']⟩] = .ok text ∧
      text = "a; b; éwz".toList := by
  have hfits : ∀ e ∈ [(⟨⟨2, 3⟩, ['w']⟩ : Edit), ⟨⟨1, 2⟩, []⟩], e.Fits "é12z".toList.length := by
    simp [Edit.Fits]
  have hapart : [(⟨⟨2, 3⟩, ['w']⟩ : Edit), ⟨⟨1, 2⟩, []⟩].Pairwise Edit.Apart := by
    simp [Edit.Apart, Apart]
  obtain ⟨text, hfinish, htext, -, -⟩ := finish_replaces ["a;", "b;"] hfits hapart
  exact ⟨text, hfinish _ (List.Perm.refl _), hfinish _ (List.Perm.swap _ _ _),
    htext.trans (by decide)⟩

end ScriptLoader.Compile
