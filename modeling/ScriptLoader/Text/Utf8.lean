/-!
# Bytes that are no text

Where a list of bytes stops being UTF-8. A character that the bytes break off in the middle of is
incomplete; otherwise the bytes that cannot begin or continue a character are counted.

* `Utf8.fault?`: the first place at which bytes are no text.
-/

namespace ScriptLoader.Text.Utf8

/-- The first place at which bytes are no text. -/
structure Fault where
  /-- The bytes before it are text. -/
  index : Nat
  /-- How many bytes are wrong; without a number the bytes end too early. -/
  length? : Option Nat
  deriving DecidableEq, Inhabited

def Fault.message (f : Fault) : String :=
  match f.length? with
  | some n => s!"invalid utf-8 sequence of {n} bytes from index {f.index}"
  | none => s!"incomplete utf-8 byte sequence from index {f.index}"

/-- The bounds that the second byte of a character lies in, and how many bytes follow it. A first
byte that begins no longer character has none. -/
def followers? (first : UInt8) : Option (UInt8 × UInt8 × Nat) :=
  if first < 0xC2 then none
  else if first < 0xE0 then some (0x80, 0xBF, 0)
  else if first = 0xE0 then some (0xA0, 0xBF, 1)
  else if first = 0xED then some (0x80, 0x9F, 1)
  else if first < 0xF0 then some (0x80, 0xBF, 1)
  else if first = 0xF0 then some (0x90, 0xBF, 2)
  else if first < 0xF4 then some (0x80, 0xBF, 2)
  else if first = 0xF4 then some (0x80, 0x8F, 2)
  else none

/-- How the bytes of a character go on. -/
inductive Tail where
  | complete (rest : List UInt8)
  /-- A byte does not belong to the character. -/
  | broken (before : Nat)
  | short
  deriving DecidableEq, Inhabited

/-- Takes bytes that continue a character; `before` of its bytes are read. -/
def continued : Nat → Nat → List UInt8 → Tail
  | 0, _, rest => .complete rest
  | _ + 1, _, [] => .short
  | n + 1, before, b :: rest =>
    if 0x80 ≤ b ∧ b ≤ 0xBF then continued n (before + 1) rest else .broken before

/-- The bytes of a character behind its first. -/
def tail (first : UInt8) (rest : List UInt8) : Tail :=
  if first < 0x80 then .complete rest
  else
    match followers? first, rest with
    | none, _ => .broken 1
    | some _, [] => .short
    | some (low, high, more), b :: rest =>
      if low ≤ b ∧ b ≤ high then continued more 2 rest else .broken 1

theorem continued_length {n before : Nat} {bytes rest : List UInt8}
    (h : continued n before bytes = .complete rest) : rest.length ≤ bytes.length := by
  induction n generalizing before bytes with
  | zero =>
    simp only [continued, Tail.complete.injEq] at h
    subst h
    exact Nat.le_refl _
  | succ n ih =>
    cases bytes with
    | nil => simp [continued] at h
    | cons b bs =>
      simp only [continued] at h
      split at h
      · exact Nat.le_succ_of_le (ih h)
      · simp at h

theorem tail_length {first : UInt8} {bytes rest : List UInt8}
    (h : tail first bytes = .complete rest) : rest.length ≤ bytes.length := by
  unfold tail at h
  split at h
  · simp only [Tail.complete.injEq] at h
    subst h
    exact Nat.le_refl _
  · split at h
    · simp at h
    · simp at h
    · split at h
      · exact Nat.le_succ_of_le (continued_length h)
      · simp at h

/-- The first place at which bytes are no text; `index` bytes are before them. -/
def faultFrom (index : Nat) (bytes : List UInt8) : Option Fault :=
  match bytes with
  | [] => none
  | first :: rest =>
    match h : tail first rest with
    | .short => some ⟨index, none⟩
    | .broken n => some ⟨index, some n⟩
    | .complete next => faultFrom (index + 1 + (rest.length - next.length)) next
termination_by bytes.length
decreasing_by
  have := tail_length h
  simp only [List.length_cons]
  omega

def fault? (bytes : List UInt8) : Option Fault := faultFrom 0 bytes

end ScriptLoader.Text.Utf8
