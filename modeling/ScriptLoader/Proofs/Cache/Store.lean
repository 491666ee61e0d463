import Mathlib.Algebra.Order.Ring.Nat
import ScriptLoader.Cache.Entry
import ScriptLoader.Cache.Lookup

/-!
# What a store holds

A number of the layout has eight bytes, so that a text or a list whose length needs more of them
could not be read back. No other compile is lost.

* `Entry.Fits`: all lengths of a stored compile fit into a number.
* `Entry.read_bytes`: such a compile is read back from its layout.
* `Store.Holds`: a store can hold a compile. One in memory can hold any; one in a database holds
  those that can be read back.
* `Store.get?_put`, `Store.get?_discard`: what is found after a compile was put, and after all were
  forgotten.
-/

namespace ScriptLoader.Cache

/-! ## Numbers -/

theorem length_littleEndian (width n : Nat) : (littleEndian width n).length = width := by
  induction width generalizing n with
  | zero => rfl
  | succ width ih => rw [littleEndian, List.length_cons, ih]

theorem ofLittleEndian_littleEndian {width n : Nat} (h : n < 256 ^ width) :
    ofLittleEndian (littleEndian width n) = n := by
  induction width generalizing n with
  | zero =>
    have hn : n = 0 := by simpa using h
    rw [hn]
    rfl
  | succ width ih =>
    have hdiv : n / 256 < 256 ^ width := by
      rw [pow_succ] at h
      exact Nat.div_lt_of_lt_mul (by rwa [Nat.mul_comm] at h)
    have hlow : (UInt8.ofNat n).toNat = n % 256 := by simp
    rw [littleEndian, ofLittleEndian, ih hdiv, hlow]
    exact Nat.mod_add_div n 256

/-- The bound of the numbers that the layout can hold. -/
def numberBound : Nat := 256 ^ 8

theorem readNumber_numberBytes {n : Nat} (h : n < numberBound) (rest : List UInt8) :
    readNumber (numberBytes n ++ rest) = .ok (n, rest) := by
  have hlen : (numberBytes n).length = 8 := length_littleEndian 8 n
  have hlong : ¬ (numberBytes n ++ rest).length < 8 := by
    rw [List.length_append, hlen]
    omega
  have htake : (numberBytes n ++ rest).take 8 = numberBytes n := List.take_left' hlen
  have hdrop : (numberBytes n ++ rest).drop 8 = rest := List.drop_left' hlen
  have hvalue : ofLittleEndian (numberBytes n) = n := ofLittleEndian_littleEndian h
  rw [readNumber, if_neg hlong, htake, hdrop, hvalue]

/-! ## Texts -/

theorem toList_loop (bytes : ByteArray) (i : Nat) (done : List UInt8) :
    ByteArray.toList.loop bytes i done = done.reverse ++ bytes.data.toList.drop i := by
  fun_induction ByteArray.toList.loop bytes i done with
  | case1 i done hi ih =>
    have hi' : i < bytes.data.toList.length := by simpa using hi
    have hget : bytes.get! i = bytes.data.toList[i] := by
      rw [ByteArray.get!, Array.getElem_toList]
      exact getElem!_pos bytes.data i (by simpa using hi)
    rw [ih, List.drop_eq_getElem_cons hi', hget]
    simp
  | case2 i done hi =>
    have hend : bytes.data.toList.length ≤ i := by simpa using hi
    simp [List.drop_eq_nil_of_le hend]

theorem toArray_toList (bytes : ByteArray) : ⟨bytes.toList.toArray⟩ = bytes := by
  have h : bytes.toList = bytes.data.toList := by
    rw [ByteArray.toList, toList_loop]
    simp
  rw [h]

theorem decodeText_toUTF8 (s : String) : decodeText s.toUTF8.toList = .ok s := by
  have h : String.fromUTF8? s.toUTF8 = some s := by
    unfold String.fromUTF8?
    rw [String.toUTF8_eq_toByteArray, dif_pos s.isValidUTF8]
    rfl
  rw [decodeText, toArray_toList, h]

/-- The number of bytes of a text can be stored. -/
def TextFits (s : String) : Prop := s.toUTF8.toList.length < numberBound

theorem readText_textBytes {s : String} (h : TextFits s) (rest : List UInt8) :
    readText (textBytes s ++ rest) = .ok (s, rest) := by
  have hlong : ¬ (s.toUTF8.toList ++ rest).length < s.toUTF8.toList.length := by
    rw [List.length_append]
    omega
  simp only [readText, textBytes, List.append_assoc, readNumber_numberBytes h, bind, Except.bind,
    if_neg hlong, List.take_left', List.drop_left', decodeText_toUTF8]
  rfl

/-- The number of some texts can be stored, and each of them. -/
structure TextsFit (texts : List String) : Prop where
  length : texts.length < numberBound
  each : ∀ s ∈ texts, TextFits s

theorem readItems_textBytes {texts : List String} (h : ∀ s ∈ texts, TextFits s)
    (rest : List UInt8) :
    readItems texts.length (texts.flatMap textBytes ++ rest) = .ok (texts, rest) := by
  induction texts with
  | nil => rfl
  | cons s texts ih =>
    have hs := readText_textBytes (h s List.mem_cons_self) (texts.flatMap textBytes ++ rest)
    have hrest := ih fun t ht => h t (List.mem_cons_of_mem _ ht)
    simp only [List.length_cons, readItems, List.flatMap_cons, List.append_assoc, hs, bind,
      Except.bind, hrest]
    rfl

theorem readTexts_textsBytes {texts : List String} (h : TextsFit texts) (rest : List UInt8) :
    readTexts (textsBytes texts ++ rest) = .ok (texts, rest) := by
  simp only [readTexts, textsBytes, List.append_assoc, readNumber_numberBytes h.length, bind,
    Except.bind]
  exact readItems_textBytes h.each rest

theorem readTruth_cons (b : Bool) (rest : List UInt8) :
    readTruth ((if b then 1 else 0) :: rest) = .ok (b, rest) := by
  cases b <;> rfl

/-! ## Stored compiles -/

/-- All lengths of a stored compile fit into a number. -/
structure Entry.Fits (e : Entry) : Prop where
  checksum : TextFits e.checksum.hex
  static : TextsFit (e.report.static.map (·.text))
  dynamic : TextsFit (e.report.dynamic.map (·.text))
  code : TextFits e.code

theorem map_mk_map_text (specifiers : List Specifier) :
    (specifiers.map (·.text)).map Specifier.mk = specifiers := by
  rw [List.map_map]
  exact List.map_id _

/-- A stored compile is read back from its layout. -/
theorem Entry.read_bytes {e : Entry} (h : e.Fits) : Entry.read e.bytes = .ok e := by
  have hbytes : e.bytes = textBytes e.checksum.hex ++ (if e.report.isModule then 1 else 0) ::
      (textsBytes (e.report.static.map (·.text)) ++ (textsBytes (e.report.dynamic.map (·.text)) ++
        (textBytes e.code ++ []))) := by
    rw [Entry.bytes, List.append_assoc, List.append_nil]
  simp only [Entry.read, hbytes, readText_textBytes h.checksum, readTruth_cons,
    readTexts_textsBytes h.static, readTexts_textsBytes h.dynamic, readText_textBytes h.code, bind,
    Except.bind, map_mk_map_text]
  rfl

/-! ## Stores -/

theorem storageKey_injective {s t : Specifier} (h : storageKey s = storageKey t) : s = t := by
  have htext : keySpace.toList ++ s.text.toList = keySpace.toList ++ t.text.toList := by
    rw [← String.toList_append, ← String.toList_append]
    exact congrArg String.toList h
  have heq : s.text = t.text := String.toList_injective (List.append_cancel_left htext)
  cases s
  cases t
  exact congrArg Specifier.mk heq

theorem isOwn_storageKey (s : Specifier) : DatabaseStore.isOwn (storageKey s) = true := by
  rw [DatabaseStore.isOwn, storageKey, String.toList_append]
  exact List.isPrefixOf_iff_prefix.2 (List.prefix_append _ _)

theorem get?_filter {κ α : Type} [DecidableEq κ] (keep : κ → Bool) (k : κ) (t : Keyed κ α) :
    Keyed.get? k (t.filter fun p => keep p.1) = if keep k then Keyed.get? k t else none := by
  induction t with
  | nil => simp [Keyed.get?]
  | cons p rest ih =>
    rw [List.filter_cons]
    by_cases hp : p.1 = k
    · subst hp
      by_cases hk : keep p.1 = true
      · simp [hk, Keyed.get?]
      · simp [hk, ih]
    · by_cases hk : keep p.1 = true
      · simp [hk, hp, Keyed.get?, ih]
      · simp [hk, hp, Keyed.get?, ih]

namespace Store

def isDatabase : Store → Bool
  | memory _ => false
  | database _ => true

/-- A store in a database can hold a compile whose lengths fit its layout. -/
def Holds (st : Store) (e : Entry) : Prop := st.isDatabase = true → e.Fits

theorem isDatabase_put (st : Store) (s : Specifier) (e : Entry) :
    (st.put s e).isDatabase = st.isDatabase := by
  cases st <;> rfl

theorem isDatabase_discard (st : Store) : st.discard.1.isDatabase = st.isDatabase := by
  cases st <;> rfl

theorem get?_put {st : Store} {e : Entry} (h : st.Holds e) (s t : Specifier) :
    (st.put s e).get? t = if t = s then .ok (some e) else st.get? t := by
  cases st with
  | memory m =>
    simp only [put, get?, MemoryStore.get?, MemoryStore.put, Keyed.get?_put]
    split <;> rfl
  | database d =>
    have hkey : storageKey t = storageKey s ↔ t = s := ⟨storageKey_injective, congrArg storageKey⟩
    simp only [put, get?, DatabaseStore.get?, DatabaseStore.put, DatabaseStore.putRaw,
      Keyed.get?_put, hkey]
    by_cases ht : t = s
    · rw [if_pos ht, if_pos ht]
      simp only [Entry.read_bytes (h rfl)]
      rfl
    · rw [if_neg ht, if_neg ht]

theorem get?_discard (st : Store) (s : Specifier) : st.discard.1.get? s = .ok none := by
  cases st with
  | memory m => rfl
  | database d =>
    have hnone : Keyed.get? (storageKey s)
        (d.records.filter fun r => !DatabaseStore.isOwn r.1) = none := by
      rw [get?_filter fun key => !DatabaseStore.isOwn key, isOwn_storageKey]
      rfl
    simp only [discard, clear, get?, DatabaseStore.clear, DatabaseStore.get?]
    rw [hnone]

/-- A compile that is used has the checksum that was asked for. -/
theorem lookUp_eq_some {st : Store} {s : Specifier} {c : Checksum} {e : Entry}
    (h : (st.lookUp s c).1 = some e) : st.get? s = .ok (some e) ∧ e.checksum = c := by
  unfold lookUp at h
  split at h
  · next f hf =>
    split at h
    · next hc =>
      cases h
      exact ⟨hf, hc⟩
    · cases h
  · cases h
  · cases h

end Store

end ScriptLoader.Cache
