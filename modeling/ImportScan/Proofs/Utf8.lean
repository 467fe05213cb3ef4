import Mathlib.Data.List.Basic

/-!
Texts and their bytes. A byte of the ASCII range stands for its own character wherever it occurs, so
such characters can be looked for in the bytes. When the bytes of a text are cut in two, either both
parts are texts or neither is.
-/

namespace ImportScan

variable {text : String} {byte : UInt8}

/-! ### Bytes of characters -/

/-- A byte of the ASCII range occurs in the encoding of its own character only. -/
theorem toNat_of_mem_utf8EncodeChar {c : Char} (h : byte ∈ String.utf8EncodeChar c)
    (hbyte : byte.toNat < 128) : c.toNat = byte.toNat := by
  have toNat_eq {n : ℕ} (hn : n < 256) (h : byte = UInt8.ofNat n) : n = byte.toNat := by
    rw [h, UInt8.toNat_ofNat', Nat.mod_eq_of_lt hn]
  unfold String.utf8EncodeChar at h
  dsimp only at h
  -- the bytes of an encoding of several bytes are all above the ASCII range
  split_ifs at h
  · have hval : c.val.toNat = byte.toNat := toNat_eq (by omega) (List.mem_singleton.1 h)
    exact hval
  · simp only [List.mem_cons, List.not_mem_nil, or_false] at h
    rcases h with h | h <;> exact absurd (toNat_eq (by omega) h) (by omega)
  · simp only [List.mem_cons, List.not_mem_nil, or_false] at h
    rcases h with h | h | h <;> exact absurd (toNat_eq (by omega) h) (by omega)
  · simp only [List.mem_cons, List.not_mem_nil, or_false] at h
    rcases h with h | h | h | h <;> exact absurd (toNat_eq (by omega) h) (by omega)

theorem toList_toUTF8 (text : String) :
    text.toUTF8.data.toList = text.toList.flatMap String.utf8EncodeChar := by
  rw [String.toUTF8_eq_toByteArray, ← String.ofList_toList (s := text), String.toByteArray_ofList,
    List.utf8Encode, String.toList_ofList]
  simp

theorem mem_toUTF8 : byte ∈ text.toUTF8.data ↔
    ∃ c ∈ text.toList, byte ∈ String.utf8EncodeChar c := by
  rw [← Array.mem_toList_iff, toList_toUTF8, List.mem_flatMap]

theorem toUTF8_inj {other : String} : text.toUTF8 = other.toUTF8 ↔ text = other := by
  rw [String.toUTF8_eq_toByteArray, String.toUTF8_eq_toByteArray, String.toByteArray_inj]

/-! ### Texts cut in two -/

/-- The bytes of a text are cut between two characters if one of the parts is a text. -/
theorem exists_texts_of_cut {kept cut : ByteArray} (h : kept ++ cut = text.toUTF8)
    (hpart : (∃ front : String, kept = front.toUTF8) ∨ ∃ rest : String, cut = rest.toUTF8) :
    ∃ front rest : String, text = front ++ rest ∧ kept = front.toUTF8 ∧ cut = rest.toUTF8 := by
  simp only [String.toUTF8_eq_toByteArray] at h hpart ⊢
  have hle : (⟨kept.size⟩ : String.Pos.Raw) ≤ text.rawEndPos := by
    rw [String.Pos.Raw.le_iff, String.byteIdx_rawEndPos, ← String.size_toByteArray, ← h,
      ByteArray.size_append]
    exact Nat.le_add_right _ _
  have hvalid : String.Pos.Raw.IsValid text ⟨kept.size⟩ := by
    rcases hpart with ⟨front, hfront⟩ | ⟨rest, hrest⟩
    · refine String.Pos.Raw.isValid_iff_isValidUTF8_extract_zero.2 ⟨hle, ?_⟩
      rw [← h, ByteArray.extract_append_eq_left rfl, hfront]
      exact front.isValidUTF8
    · refine String.Pos.Raw.isValid_iff_isValidUTF8_extract_utf8ByteSize.2 ⟨hle, ?_⟩
      rw [← String.size_toByteArray, ← h,
        ByteArray.extract_append_eq_right rfl ByteArray.size_append, hrest]
      exact rest.isValidUTF8
  obtain ⟨front, rest, rfl, hfront⟩ := String.Pos.Raw.isValid_iff_exists_append.1 hvalid
  have hsize : kept.size = front.toByteArray.size := congrArg String.Pos.Raw.byteIdx hfront
  rw [String.toByteArray_append, ByteArray.append_eq_append_iff_of_size_eq_left hsize] at h
  exact ⟨front, rest, rfl, h⟩

end ImportScan
