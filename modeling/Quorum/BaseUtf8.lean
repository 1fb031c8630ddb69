import Mathlib.Data.List.Basic

/-! UTF-8 over lists of bytes: a decoding inverts the encoding, and a byte below 128 is a character
of its own. -/

namespace Quorum

/-- `text.encode()`. -/
def encodeUtf8 (text : List Char) : List UInt8 :=
  text.flatMap String.utf8EncodeChar

/-- `raw.decode()`, or nothing for bytes that are not UTF-8. -/
def decodeUtf8 (bytes : List UInt8) : Option (List Char) :=
  bytes.toByteArray.utf8Decode?.map Array.toList

@[simp] theorem encodeUtf8_nil : encodeUtf8 [] = [] := rfl

theorem encodeUtf8_cons (ch : Char) (text : List Char) :
    encodeUtf8 (ch :: text) = String.utf8EncodeChar ch ++ encodeUtf8 text := rfl

theorem encodeUtf8_append (left right : List Char) :
    encodeUtf8 (left ++ right) = encodeUtf8 left ++ encodeUtf8 right :=
  List.flatMap_append

theorem toByteArray_encodeUtf8 (text : List Char) :
    (encodeUtf8 text).toByteArray = text.utf8Encode := rfl

theorem decodeUtf8_encode_append (text : List Char) (bytes : List UInt8) :
    decodeUtf8 (encodeUtf8 text ++ bytes) = (decodeUtf8 bytes).map (text ++ ·) := by
  induction text with
  | nil => simp
  | cons ch text ih =>
      have hsplit : (encodeUtf8 (ch :: text) ++ bytes).toByteArray
          = [ch].utf8Encode ++ (encodeUtf8 text ++ bytes).toByteArray := by
        rw [encodeUtf8_cons, List.append_assoc, List.toByteArray_append, List.utf8Encode_singleton]
      rw [decodeUtf8, hsplit, ByteArray.utf8Decode?_utf8Encode_singleton_append, Option.map_map]
      rw [decodeUtf8] at ih
      calc (encodeUtf8 text ++ bytes).toByteArray.utf8Decode?.map
              (Array.toList ∘ fun found => #[ch] ++ found)
          = ((encodeUtf8 text ++ bytes).toByteArray.utf8Decode?.map Array.toList).map
              (ch :: ·) := by
            rw [Option.map_map]
            congr 1
            funext found
            simp
        _ = (decodeUtf8 bytes).map (ch :: text ++ ·) := by
            rw [ih, Option.map_map]
            rfl

/-- Decoding gives back what was encoded. -/
theorem decodeUtf8_encode (text : List Char) : decodeUtf8 (encodeUtf8 text) = some text := by
  have hempty : decodeUtf8 [] = some [] := by
    simp [decodeUtf8]
  have happend := decodeUtf8_encode_append text []
  rw [List.append_nil, hempty] at happend
  rw [happend]
  simp

/-- Only an encoding decodes, and it decodes to what was encoded. -/
theorem encode_of_decodeUtf8 {bytes : List UInt8} {text : List Char}
    (h : decodeUtf8 bytes = some text) : encodeUtf8 text = bytes := by
  obtain ⟨found, hfound, rfl⟩ := Option.map_eq_some_iff.mp h
  have hvalid : bytes.toByteArray.utf8Decode?.isSome := by
    rw [hfound]
    rfl
  have hget : bytes.toByteArray.utf8Decode?.get hvalid = found :=
    Option.get_of_eq_some hvalid hfound
  have hencode : found.toList.utf8Encode = bytes.toByteArray := by
    rw [← hget]
    exact ByteArray.utf8Encode_get_utf8Decode?
  have hdata := congrArg (fun array => array.data.toList) hencode
  simpa [← toByteArray_encodeUtf8] using hdata

/-- What a part of an encoding decodes to begins the text. -/
theorem prefix_of_decodeUtf8 {bytes : List UInt8} {text full : List Char}
    (h : decodeUtf8 bytes = some text) (hpart : bytes <+: encodeUtf8 full) : text <+: full := by
  obtain ⟨rest, hrest⟩ := hpart
  have hdecode := decodeUtf8_encode_append text rest
  rw [encode_of_decodeUtf8 h, hrest, decodeUtf8_encode] at hdecode
  obtain ⟨more, -, hmore⟩ := Option.map_eq_some_iff.mp hdecode.symm
  exact ⟨more, hmore⟩

theorem length_le_encodeUtf8 (text : List Char) : text.length ≤ (encodeUtf8 text).length := by
  induction text with
  | nil => exact Nat.le_refl _
  | cons ch text ih =>
      have hpos := ch.utf8Size_pos
      rw [encodeUtf8_cons, List.length_append, String.length_utf8EncodeChar, List.length_cons]
      omega

theorem utf8EncodeChar_of_ascii {ch : Char} (h : ch.toNat < 128) :
    String.utf8EncodeChar ch = [UInt8.ofNat ch.toNat] := by
  have hle : ch.val.toNat ≤ 0x7f := Nat.le_of_lt_succ h
  rw [String.utf8EncodeChar]
  exact if_pos hle

/-- A byte below 128 in an encoding is a character's own. -/
theorem mem_encodeUtf8_of_ascii {text : List Char} {byte : UInt8} (hbyte : byte.toNat < 128)
    (h : byte ∈ encodeUtf8 text) : ∃ ch ∈ text, ch.toNat = byte.toNat := by
  rw [encodeUtf8, List.mem_flatMap] at h
  obtain ⟨ch, hch, hmem⟩ := h
  refine ⟨ch, hch, ?_⟩
  have hval : ch.toNat = ch.val.toNat := rfl
  rw [String.utf8EncodeChar] at hmem
  split_ifs at hmem with hone htwo hthree
  · rw [List.mem_singleton] at hmem
    rw [hmem, UInt8.toNat_ofNat', hval]
    omega
  · simp only [List.mem_cons, List.not_mem_nil, or_false] at hmem
    rcases hmem with rfl | rfl <;> rw [UInt8.toNat_ofNat'] at hbyte <;> omega
  · simp only [List.mem_cons, List.not_mem_nil, or_false] at hmem
    rcases hmem with rfl | rfl | rfl <;> rw [UInt8.toNat_ofNat'] at hbyte <;> omega
  · simp only [List.mem_cons, List.not_mem_nil, or_false] at hmem
    rcases hmem with rfl | rfl | rfl | rfl <;> rw [UInt8.toNat_ofNat'] at hbyte <;> omega

end Quorum
