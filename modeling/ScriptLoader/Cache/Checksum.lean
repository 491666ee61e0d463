import ScriptLoader.Compile.Basic
import ScriptLoader.Digest.Blake3

/-!
# Checksums of sources

A checksum names what a compile depends on: the layout of stored compiles, the options and the
source text. It is the hash of these, one after the other, with a zero byte behind each text but
the last.

* `Checksum.content`: the bytes that are hashed.
* `Checksum.compute`: the checksum of a source under options.
-/

namespace ScriptLoader.Cache

/-- A checksum as hexadecimal text. -/
structure Checksum where
  hex : String
  deriving DecidableEq, Hashable, Inhabited

namespace Checksum

/-- Changes whenever a stored compile changes its layout or meaning. -/
def formatVersion : UInt32 := 1

/-- The version of the library that stored compiles come from. -/
def libraryVersion : String := "0.1.0"

def utf8 (s : String) : List UInt8 := s.toUTF8.toList

/-- The bytes of options. -/
def optionBytes (o : Compile.Options) : List UInt8 :=
  (if o.markup then 1 else 0) :: (utf8 o.pragma ++ 0 :: utf8 o.fragment ++ [0])

/-- The bytes that are hashed. -/
def content (source : String) (options : Compile.Options) : List UInt8 :=
  Digest.Blake3.wordBytes formatVersion ++ utf8 libraryVersion ++ 0 ::
    (optionBytes options ++ utf8 source)

/-- The checksum of a source under options. -/
def compute (source : String) (options : Compile.Options) : Checksum :=
  ⟨Digest.Blake3.hex (content source options)⟩

end Checksum

end ScriptLoader.Cache
