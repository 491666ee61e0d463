import Mathlib.Data.List.Basic
import ScriptLoader.Proofs.Cache.Store

/-!
# The bytes of a text

* `Text.bytes`: the bytes of the characters of a text, one after the other.
* `Text.bytes_injective`: different texts have different bytes.
-/

namespace ScriptLoader.Text

/-- The bytes of characters, one character after the other. -/
def bytes (cs : List Char) : List UInt8 := cs.flatMap String.utf8EncodeChar

theorem bytes_append (cs ds : List Char) : bytes (cs ++ ds) = bytes cs ++ bytes ds :=
  List.flatMap_append

theorem bytes_cons (c : Char) (cs : List Char) :
    bytes (c :: cs) = String.utf8EncodeChar c ++ bytes cs := List.flatMap_cons

/-- The character zero is the byte zero. -/
theorem bytes_zero_cons (cs : List Char) : bytes ('\x00' :: cs) = 0 :: bytes cs := rfl

theorem toUTF8_ofList (cs : List Char) : (String.ofList cs).toUTF8.toList = bytes cs := by
  have h : (String.ofList cs).toUTF8 = ⟨(bytes cs).toArray⟩ := by
    rw [String.toUTF8_eq_toByteArray, String.toByteArray_ofList]
    exact ByteArray.ext List.data_toByteArray
  have hdata := congrArg ByteArray.data (Cache.toArray_toList (String.ofList cs).toUTF8)
  rw [h] at hdata ⊢
  exact List.toArray_inj hdata

theorem toUTF8_toList (s : String) : s.toUTF8.toList = bytes s.toList := by
  rw [← toUTF8_ofList, String.ofList_toList]

theorem bytes_injective : Function.Injective bytes := by
  intro cs ds h
  have hencode : (String.ofList cs).toByteArray = (String.ofList ds).toByteArray := by
    rw [String.toByteArray_ofList, String.toByteArray_ofList]
    exact congrArg List.toByteArray h
  exact String.ofList_inj.1 (String.toByteArray_inj.1 hencode)

end ScriptLoader.Text
