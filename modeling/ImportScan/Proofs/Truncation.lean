import ImportScan.Proofs.ConfigFile

/-!
What is left of a configuration file that was cut off. A value that holds a configuration ends with
its bracket, and nothing but blanks may stand behind it. So a text that is cut within the value
holds no configuration, one that is cut behind it still holds the same, and as blanks are single
bytes, this can be told from the bytes that were cut off.
-/

namespace ImportScan.Config

open Json

variable {s r w b : List Char} {c c' : Config} {bytes kept cut : ByteArray}

/-! ### Blanks at the end -/

theorem exists_blank_behind {e : Char} (hr : IsBlank r) (hb : IsBlank b) (he : isBlank e = false)
    (h : s ++ r = w ++ e :: b) : ∃ b', IsBlank b' ∧ s = w ++ e :: b' := by
  have hskip : skipBlank s.reverse = e :: w.reverse := by
    rw [← skipBlank_append hr.reverse, ← List.reverse_append, h, List.reverse_append,
      List.reverse_cons, List.append_assoc, skipBlank_append hb.reverse, List.singleton_append,
      skipBlank_cons he]
  obtain ⟨-, b', hb', hs⟩ := skipBlank_eq_cons.1 hskip
  refine ⟨b'.reverse, hb'.reverse, ?_⟩
  rw [← List.reverse_reverse s, hs]
  simp

/-! ### Texts -/

/-- What holds a configuration ends with its closing bracket. -/
theorem exists_close {x : Data} {d : Draft} {v : List Char} (hv : Spells (.value x) v)
    (hreads : Reads x d) : ∃ w e, isBlank e = false ∧ v = w ++ [e] := by
  cases x with
  | list ds =>
    obtain ⟨t, ht, rfl⟩ := spells_list_iff_items.1 hv
    obtain ⟨u, rfl⟩ := ht.exists_close
    exact ⟨'[' :: u, ']', by decide, rfl⟩
  | object ms =>
    obtain ⟨t, ht, rfl⟩ := spells_object_iff_items.1 hv
    obtain ⟨u, rfl⟩ := ht.exists_close
    exact ⟨'\x7b' :: u, '\x7d', by decide, rfl⟩
  | null | boolean _ | number _ | string _ => exact absurd hreads not_false

/-- A text with more behind it holds a configuration only if that is blank, and then the same. -/
theorem readJson_append (h : readJson s = .ok c) :
    readJson (s ++ r) = .ok c' ↔ IsBlank r ∧ c' = c := by
  obtain ⟨x, d, htext, hreads, rfl⟩ := readJson_eq_ok.1 h
  cases htext with
  | element hb hv hb' =>
    rw [List.append_assoc, List.append_assoc, readJson_value hb hv hreads, skipBlank_append hb',
      ← skipBlank_eq_nil]
    cases skipBlank r with
    | nil => simp [eq_comm]
    | cons e rest => simp

/-- Blanks that are cut off a text change nothing. -/
theorem readJson_of_append_blank (h : readJson (s ++ r) = .ok c) (hr : IsBlank r) :
    readJson s = .ok c := by
  obtain ⟨x, d, htext, hreads, rfl⟩ := readJson_eq_ok.1 h
  generalize hwhole : s ++ r = whole at htext
  cases htext with
  | @element b v b' _ hb hv hb' =>
    obtain ⟨w, e, he, rfl⟩ := exists_close hv hreads
    have hend : s ++ r = (b ++ w) ++ e :: b' := by simpa using hwhole
    obtain ⟨b', hb', rfl⟩ := exists_blank_behind hr hb' he hend
    refine readJson_eq_ok.2 ⟨x, d, ?_, hreads, rfl⟩
    simpa [IsText] using Spells.element hb hv hb'

/-! ### Bytes -/

/-- Bytes that stand for blanks. -/
def BlankBytes (bytes : ByteArray) : Prop := ∀ byte ∈ bytes.data, byte ∈ [32, 9, 10, 13]

instance (bytes : ByteArray) : Decidable (BlankBytes bytes) :=
  decidable_of_iff (bytes.data.toList.all fun byte => [32, 9, 10, 13].contains byte)
    (by simp only [BlankBytes, List.all_eq_true, List.contains_iff_mem, Array.mem_toList_iff])

/-- Each of these bytes is the encoding of a blank. -/
theorem blank_of_byte {byte : UInt8} (h : byte ∈ [32, 9, 10, 13]) :
    byte.toNat < 128 ∧ Char.ofNat byte.toNat ∈ [' ', '\t', '\n', '\r'] ∧
      String.utf8EncodeChar (Char.ofNat byte.toNat) = [byte] := by
  simp only [List.mem_cons, List.not_mem_nil, or_false] at h
  rcases h with rfl | rfl | rfl | rfl <;> decide

theorem utf8EncodeChar_of_blank {c : Char} (h : c ∈ [' ', '\t', '\n', '\r']) :
    ∃ byte ∈ [32, 9, 10, 13], String.utf8EncodeChar c = [byte] := by
  simp only [List.mem_cons, List.not_mem_nil, or_false] at h
  rcases h with rfl | rfl | rfl | rfl
  · exact ⟨32, by decide, by decide⟩
  · exact ⟨9, by decide, by decide⟩
  · exact ⟨10, by decide, by decide⟩
  · exact ⟨13, by decide, by decide⟩

theorem blankBytes_toUTF8 {text : String} : BlankBytes text.toUTF8 ↔ IsBlank text.toList := by
  constructor
  · intro h c hc
    obtain ⟨byte, hbyte⟩ := List.exists_mem_of_ne_nil _ (String.utf8EncodeChar_ne_nil (c := c))
    obtain ⟨hascii, hchar, -⟩ := blank_of_byte (h byte (mem_toUTF8.2 ⟨c, hc, hbyte⟩))
    rwa [← toNat_of_mem_utf8EncodeChar hbyte hascii, Char.ofNat_toNat] at hchar
  · intro h byte hbyte
    obtain ⟨c, hc, hmem⟩ := mem_toUTF8.1 hbyte
    obtain ⟨blank, hblank, hencode⟩ := utf8EncodeChar_of_blank (h c hc)
    rw [hencode, List.mem_singleton] at hmem
    exact hmem ▸ hblank

theorem BlankBytes.exists_text (h : BlankBytes bytes) : ∃ text : String, bytes = text.toUTF8 := by
  have hencode (byte : UInt8) (hbyte : byte ∈ bytes.data.toList) :
      String.utf8EncodeChar (Char.ofNat byte.toNat) = [byte] :=
    (blank_of_byte (h byte (Array.mem_toList_iff.1 hbyte))).2.2
  refine ⟨String.ofList (bytes.data.toList.map fun byte => Char.ofNat byte.toNat), ?_⟩
  rw [ByteArray.ext_iff, ← Array.toList_inj, toList_toUTF8, String.toList_ofList, List.flatMap_map,
    List.flatMap_congr hencode]
  exact (List.flatMap_singleton' _).symm

/-- From the bytes that are left of a configuration the same configuration is read if all that was
cut off is blank, and none if not. -/
theorem ofBytes_kept (h : ofBytes (kept ++ cut) = .ok c) :
    (BlankBytes cut → ofBytes kept = .ok c) ∧
      (¬BlankBytes cut → ∃ cause, ofBytes kept = .error cause) := by
  obtain ⟨text, htext, hread⟩ := ofBytes_eq_ok.1 h
  constructor
  · intro hcut
    obtain ⟨front, rest, rfl, rfl, rfl⟩ := exists_texts_of_cut htext (.inr hcut.exists_text)
    rw [String.toList_append] at hread
    exact ofBytes_eq_ok.2 ⟨front, rfl, readJson_of_append_blank hread (blankBytes_toUTF8.1 hcut)⟩
  · intro hcut
    cases hkept : ofBytes kept with
    | error cause => exact ⟨cause, rfl⟩
    | ok c' =>
      -- what is left would be a text of its own, and the rest blank
      obtain ⟨text', htext', hread'⟩ := ofBytes_eq_ok.1 hkept
      obtain ⟨front, rest, rfl, hfront, rfl⟩ := exists_texts_of_cut htext (.inl ⟨text', htext'⟩)
      obtain rfl := toUTF8_inj.1 (htext'.symm.trans hfront)
      rw [String.toList_append] at hread
      exact absurd (blankBytes_toUTF8.2 ((readJson_append hread').1 hread).1) hcut

/-- A configuration file that was cut off is never loaded as another configuration. Where one is
loaded from some bytes, the same is loaded from any of their beginnings if all the rest is blank,
and there is an error if the rest is not; when nothing is left, the text is malformed. -/
theorem load_truncated {fs other : FileSystem} {base dir : String}
    (h : fs.node (Path.join base fileName) = .ok (.file (kept ++ cut)))
    (hload : load fs base = .ok c)
    (hkept : other.node (Path.join dir fileName) = .ok (.file kept)) :
    (BlankBytes cut → load other dir = .ok c) ∧
      (¬BlankBytes cut → ∃ cause, load other dir = .error cause) ∧
      (kept = ByteArray.empty → ∃ fault, load other dir = .error (.malformed [] fault)) := by
  rw [load_of_bytes h] at hload
  obtain ⟨hblank, hnot⟩ := ofBytes_kept hload
  rw [load_of_bytes hkept]
  refine ⟨hblank, hnot, fun hempty => ?_⟩
  rw [← load_of_bytes hkept]
  exact load_of_empty (hempty ▸ hkept)

/-- Without the newline at its end a file is loaded as with it; without a bracket it is not. -/
theorem load_truncated_sample :
    (projectOf "[[]]\n").node (Path.join "/p" fileName) = .ok (.file "[[]]\n".toUTF8) ∧
      load (projectOf "[[]]\n") "/p" = .ok { roots := [] } ∧
      load (projectOf "[[]]") "/p" = .ok { roots := [] } ∧
      ∃ cause, load (projectOf "[[]") "/p" = .error cause := by
  have hnode (text : String) : (projectOf text).node (Path.join "/p" fileName) =
      .ok (.file text.toUTF8) := rfl
  have hlist : IsText "[[]]\n".toList (.list [.texts []]) := by
    have hinner : Spells (.elements [.texts []]) "[]".toList :=
      .lastElement (.element isBlank_nil (.emptyList isBlank_nil) isBlank_nil)
    have hblank : IsBlank ['\n'] := List.forall_mem_singleton.2 (by decide)
    exact Spells.element isBlank_nil (.list hinner) hblank
  have hload : load (projectOf "[[]]\n") "/p" = .ok { roots := [] } := by
    rw [load_of_file (hnode _), readJson_eq_ok.2 ⟨_, _, hlist, Reader.TakesList.cons .nil, rfl⟩]
    rfl
  have hnewline : "[[]]".toUTF8 ++ "\n".toUTF8 = "[[]]\n".toUTF8 := by decide
  have hbracket : "[[]".toUTF8 ++ "]\n".toUTF8 = "[[]]\n".toUTF8 := by decide
  refine ⟨hnode _, hload, ?_, ?_⟩
  · exact (load_truncated (hnewline ▸ hnode _) hload (hnode _)).1 (by decide)
  · exact (load_truncated (hbracket ▸ hnode _) hload (hnode _)).2.1 (by decide)

end ImportScan.Config
