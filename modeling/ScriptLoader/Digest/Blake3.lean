import ScriptLoader.Text.Hex

/-!
# The BLAKE3 hash

The hash of a byte string: chunks of 1024 bytes are compressed block by block, and their chaining
values are joined pairwise in a tree whose left side is as large a power of two as possible.

* `Blake3.hash`: the 32 bytes of a hash.
* `Blake3.hex`: the hash as text.
-/

namespace ScriptLoader.Digest.Blake3

/-- A list of words of 32 bits. -/
abbrev Words := Array UInt32

/-- The chaining value at the start. -/
def start : Words :=
  #[0x6A09E667, 0xBB67AE85, 0x3C6EF372, 0xA54FF53A, 0x510E527F, 0x9B05688C, 0x1F83D9AB, 0x5BE0CD19]

/-- How the words of a block are put in order after each round. -/
def order : List Nat := [2, 6, 3, 10, 7, 0, 4, 13, 1, 11, 12, 5, 9, 14, 15, 8]

def chunkStart : UInt32 := 1
def chunkEnd : UInt32 := 2
def parent : UInt32 := 4
def root : UInt32 := 8

def word (ws : Words) (i : Nat) : UInt32 := (ws[i]?).getD 0

def rotate (x n : UInt32) : UInt32 := (x >>> n) ||| (x <<< (32 - n))

/-- Mixes two words of a block into four words of a state. -/
def mix (s : Words) (a b c d : Nat) (x y : UInt32) : Words :=
  let va := word s a + word s b + x
  let vd := rotate (word s d ^^^ va) 16
  let vc := word s c + vd
  let vb := rotate (word s b ^^^ vc) 12
  let va := va + vb + y
  let vd := rotate (vd ^^^ va) 8
  let vc := vc + vd
  let vb := rotate (vb ^^^ vc) 7
  (((s.setIfInBounds a va).setIfInBounds b vb).setIfInBounds c vc).setIfInBounds d vd

/-- One round: columns, then diagonals. -/
def round (s m : Words) : Words :=
  let w := word m
  let s := mix s 0 4 8 12 (w 0) (w 1)
  let s := mix s 1 5 9 13 (w 2) (w 3)
  let s := mix s 2 6 10 14 (w 4) (w 5)
  let s := mix s 3 7 11 15 (w 6) (w 7)
  let s := mix s 0 5 10 15 (w 8) (w 9)
  let s := mix s 1 6 11 12 (w 10) (w 11)
  let s := mix s 2 7 8 13 (w 12) (w 13)
  mix s 3 4 9 14 (w 14) (w 15)

def permute (m : Words) : Words := (order.map (word m)).toArray

/-- Rounds with the block put in a new order between two of them. -/
def rounds : Nat → Words → Words → Words
  | 0, s, _ => s
  | n + 1, s, m => rounds n (round s m) (permute m)

/-- The chaining value after a block of at most 64 bytes. -/
def compress (cv block : Words) (counter : UInt64) (length flags : UInt32) : Words :=
  let state : Words :=
    cv ++ start.take 4 ++ #[counter.toUInt32, (counter >>> 32).toUInt32, length, flags]
  let s := rounds 7 state block
  ((List.range 8).map fun i => word s i ^^^ word s (i + 8)).toArray

/-- The words of a block, least significant byte first; missing bytes are zero. -/
def blockWords : Nat → List UInt8 → List UInt32
  | 0, _ => []
  | n + 1, bytes =>
    let byte (i : Nat) : UInt32 := ((bytes[i]?).getD 0).toUInt32
    (byte 0 ||| byte 1 <<< 8 ||| byte 2 <<< 16 ||| byte 3 <<< 24) :: blockWords n (bytes.drop 4)

/-- What is left to compress: the arguments of the last compression of a chunk or join. Only the
last compression of all carries the mark of the root. -/
structure Output where
  cv : Words
  block : Words
  counter : UInt64
  length : UInt32
  flags : UInt32

def Output.value (o : Output) : Words := compress o.cv o.block o.counter o.length o.flags

def Output.rootValue (o : Output) : Words :=
  compress o.cv o.block 0 o.length (o.flags ||| root)

/-- The blocks of a chunk, up to the last one; `first` marks the first one. -/
def chunkBlocks (counter : UInt64) : Nat → Bool → Words → List UInt8 → Output
  | 0, _, cv, _ => ⟨cv, #[], counter, 0, chunkEnd⟩
  | fuel + 1, first, cv, bytes =>
    let flags := if first then chunkStart else 0
    let block := (blockWords 16 (bytes.take 64)).toArray
    let rest := bytes.drop 64
    if rest.isEmpty then ⟨cv, block, counter, UInt32.ofNat bytes.length, flags ||| chunkEnd⟩
    else chunkBlocks counter fuel false (compress cv block counter 64 flags) rest

/-- A chunk of at most 1024 bytes. -/
def chunk (counter : Nat) (bytes : List UInt8) : Output :=
  chunkBlocks (UInt64.ofNat counter) 17 true start bytes

/-- Two chaining values as one. -/
def join (left right : Words) : Output := ⟨start, left ++ right, 0, 64, parent⟩

/-- The chunks of a byte string; there is always one. -/
def chunks : Nat → List UInt8 → List (List UInt8)
  | 0, _ => []
  | fuel + 1, bytes =>
    let rest := bytes.drop 1024
    bytes.take 1024 :: if rest.isEmpty then [] else chunks fuel rest

/-- The largest power of two below `n`, for `n > 1`. -/
def leftSize (n : Nat) : Nat := 1 <<< (n - 1).log2

/-- The tree over chunks, the first of them with a number. -/
def tree : Nat → Nat → List (List UInt8) → Output
  | 0, first, cs => chunk first cs.flatten
  | fuel + 1, first, cs =>
    match cs with
    | [] => chunk first []
    | [c] => chunk first c
    | cs =>
      let n := leftSize cs.length
      join (tree fuel first (cs.take n)).value (tree fuel (first + n) (cs.drop n)).value

/-- The bytes of a word, least significant first. -/
def wordBytes (w : UInt32) : List UInt8 :=
  [w.toUInt8, (w >>> 8).toUInt8, (w >>> 16).toUInt8, (w >>> 24).toUInt8]

/-- The hash of a byte string. -/
def hash (bytes : List UInt8) : List UInt8 :=
  let cs := chunks (bytes.length / 1024 + 1) bytes
  (tree (cs.length + 1) 0 cs).rootValue.toList.flatMap wordBytes

/-- The hash in hexadecimal digits. -/
def hex (bytes : List UInt8) : String := String.ofList (Text.ofBytes (hash bytes))

end ScriptLoader.Digest.Blake3
