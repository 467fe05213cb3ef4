import ImportScan.Proofs.ScanReport
import ImportScan.Proofs.StrictUtf8

/-!
What reading a source file gives. The bytes at the end of the path are taken as a text exactly if
they are one by the table of strict UTF-8, and then as that text; a file with a fault in it,
wherever that is, gives no text at all; and whatever is no file is an error of reading.
-/

namespace ImportScan.FileSystem

variable {fs : FileSystem} {path text : String} {content rest : List UInt8} {cause : OsError}

/-- The path leads to a file of these bytes, links followed. -/
def FileAt (fs : FileSystem) (path : String) (content : List UInt8) : Prop :=
  ∃ bytes : ByteArray, fs.node path = .ok (.file bytes) ∧ bytes.data.toList = content

/-- What is read is the text that the file's bytes are by the table. -/
theorem readSource_eq_ok_iff_text : fs.readSource path = .ok text ↔
    ∃ content, fs.FileAt path content ∧ Utf8.Text text.toList content := by
  rw [readSource_eq_ok]
  constructor
  · exact fun h => ⟨_, ⟨_, h, rfl⟩, Utf8.text_toUTF8_iff.2 rfl⟩
  · rintro ⟨_, ⟨bytes, hnode, rfl⟩, htext⟩
    rw [hnode, Utf8.text_toUTF8_iff.1 htext]

/-- Only a file whose bytes are no text is reported as such. -/
theorem readSource_eq_notText_iff : fs.readSource path = .error .notText ↔
    ∃ content, fs.FileAt path content ∧ ∀ chars, ¬Utf8.Text chars content := by
  constructor
  · intro h
    have hnot (text : String) : fs.readSource path ≠ .ok text := by simp [h]
    cases hnode : fs.node path with
    | error cause => simp [readSource, read, hnode] at h
    | ok node =>
      cases node with
      | file bytes =>
        refine ⟨_, ⟨bytes, hnode, rfl⟩, fun chars htext => hnot (String.ofList chars) ?_⟩
        refine readSource_eq_ok_iff_text.2 ⟨_, ⟨bytes, hnode, rfl⟩, ?_⟩
        rwa [String.toList_ofList]
      | dir entries => simp [readSource, read, hnode] at h
      | link target => simp [readSource, read, hnode] at h
  · rintro ⟨_, ⟨bytes, hnode, rfl⟩, hnone⟩
    have hbytes : String.fromUTF8? bytes = none := by
      refine Option.eq_none_iff_forall_ne_some.2 fun text h => hnone text.toList ?_
      exact Utf8.text_toUTF8_iff.2 (fromUTF8?_eq_some.1 h)
    simp only [readSource, read, hnode, hbytes]

/-- What is no file cannot be read, for the reason for which the path leads nowhere or because it
leads to a directory. -/
theorem readSource_eq_unreadable_iff : fs.readSource path = .error (.unreadable cause) ↔
    fs.node path = .error cause ∨ cause = .isDirectory ∧ fs.IsDirectory path := by
  rw [readSource, read, IsDirectory]
  cases hnode : fs.node path with
  | error found => simp
  | ok node =>
    cases node with
    | file bytes => cases htext : String.fromUTF8? bytes <;> simp [htext]
    | dir entries => simp [eq_comm]
    | link target => exact absurd hnode (fs.node_ne_link path target)

theorem unreadable_iff_not_fileAt : (∃ cause, fs.readSource path = .error (.unreadable cause)) ↔
    ∀ content, ¬fs.FileAt path content := by
  simp only [readSource_eq_unreadable_iff, FileAt]
  cases hnode : fs.node path with
  | error found => simp
  | ok node =>
    cases node with
    | file bytes => simp [IsDirectory, hnode]
    | dir entries => simp [IsDirectory, hnode]
    | link target => exact absurd hnode (fs.node_ne_link path target)

theorem unreadable_of_objection (h : objection? path = some cause) :
    fs.readSource path = .error (.unreadable cause) := by
  have hnode : fs.node path = .error cause := by
    rw [node, resolve_eq, h]
    rfl
  exact readSource_eq_unreadable_iff.2 (.inl hnode)

/-- A byte order mark is the first character of what is read. -/
theorem readSource_mark (hfile : fs.FileAt path (0xEF :: 0xBB :: 0xBF :: rest))
    (h : fs.readSource path = .ok text) :
    ∃ more, text.toList = '\uFEFF' :: more ∧ Utf8.Text more rest := by
  obtain ⟨content, ⟨bytes, hnode, rfl⟩, htext⟩ := readSource_eq_ok_iff_text.1 h
  obtain ⟨bytes', hnode', hbytes⟩ := hfile
  obtain rfl : bytes = bytes' := by simpa [hnode] using hnode'
  rw [hbytes] at htext
  obtain ⟨c, more, htext, hc, hmore⟩ := htext.behind Utf8.character_mark rfl
  refine ⟨more, ?_, hmore⟩
  rw [htext, ← Char.ofNat_toNat c, hc, Char.ofNat_toNat]

/-- Bytes are no text exactly if behind some text at their front, an empty one included, there is a
fault. -/
theorem not_text_iff : (∀ chars, ¬Utf8.Text chars content) ↔
    ∃ chars front rest, content = front ++ rest ∧ Utf8.Text chars front ∧ Utf8.Fault rest := by
  constructor
  · intro h
    exact (Utf8.text_or_fault content).resolve_left fun ⟨chars, htext⟩ => h chars htext
  · rintro ⟨chars, front, rest, rfl, hfront, hfault⟩ other
    exact hfault.not_text hfront other

/-- Reading a source is decided by what its path leads to, links followed. It gives a text exactly
for a file whose bytes are that text in strict UTF-8, so encoding what was read gives the bytes back
and what was encoded is read again. It fails to decode exactly a file whose bytes are no text, that
is which have a fault behind some text. In all other cases, and in no case where there is a file, it
is an error of reading: for the reason for which the path leads nowhere, or because it leads to a
directory. A byte order mark is read like any other character. -/
theorem readSource_decided (fs : FileSystem) (path : String) :
    (∀ text : String, fs.readSource path = .ok text ↔
      ∃ content, fs.FileAt path content ∧ Utf8.Text text.toList content) ∧
    (∀ text : String, fs.readSource path = .ok text ↔
      fs.FileAt path text.toUTF8.data.toList) ∧
    (fs.readSource path = .error .notText ↔
      ∃ content, fs.FileAt path content ∧ ∀ chars, ¬Utf8.Text chars content) ∧
    (fs.readSource path = .error .notText ↔ ∃ chars front rest,
      fs.FileAt path (front ++ rest) ∧ Utf8.Text chars front ∧ Utf8.Fault rest) ∧
    ((∃ cause, fs.readSource path = .error (.unreadable cause)) ↔
      ∀ content, ¬fs.FileAt path content) ∧
    (∀ cause, fs.readSource path = .error (.unreadable cause) ↔
      fs.node path = .error cause ∨ cause = .isDirectory ∧ fs.IsDirectory path) ∧
    (∀ cause, objection? path = some cause → fs.readSource path = .error (.unreadable cause)) ∧
    ∀ text rest, fs.FileAt path (0xEF :: 0xBB :: 0xBF :: rest) → fs.readSource path = .ok text →
      ∃ more, text.toList = '\uFEFF' :: more ∧ Utf8.Text more rest := by
  refine ⟨fun text => readSource_eq_ok_iff_text, fun text => ?_, readSource_eq_notText_iff, ?_,
    unreadable_iff_not_fileAt, fun cause => readSource_eq_unreadable_iff,
    fun cause => unreadable_of_objection, fun text rest => readSource_mark⟩
  · rw [readSource_eq_ok_iff_text]
    constructor
    · rintro ⟨_, ⟨bytes, hnode, rfl⟩, htext⟩
      exact ⟨bytes, hnode, by rw [Utf8.text_toUTF8_iff.1 htext]⟩
    · exact fun h => ⟨_, h, Utf8.text_toUTF8_iff.2 rfl⟩
  · rw [readSource_eq_notText_iff]
    simp only [not_text_iff]
    constructor
    · rintro ⟨_, hfile, chars, front, rest, rfl, hfront, hfault⟩
      exact ⟨chars, front, rest, hfile, hfront, hfault⟩
    · rintro ⟨chars, front, rest, hfile, hfront, hfault⟩
      exact ⟨_, hfile, chars, front, rest, rfl, hfront, hfault⟩

/-- A byte order mark behind a link, half a surrogate pair, a character cut off by the end, a
directory, and a path with a NUL character. -/
theorem readSource_decided_sample :
    let fs := treeOf [("bom.js", .file ⟨#[0xEF, 0xBB, 0xBF, 0x61]⟩), ("link.js", .link "bom.js"),
      ("half.js", .file ⟨#[0x61, 0xED, 0xA0, 0x80]⟩), ("cut.js", .file ⟨#[0x61, 0xE2, 0x82]⟩),
      ("src", .dir [])]
    fs.readSource "/p/link.js" = .ok "\uFEFFa" ∧
      fs.readSource "/p/half.js" = .error .notText ∧ fs.readSource "/p/cut.js" = .error .notText ∧
      fs.readSource "/p/src" = .error (.unreadable .isDirectory) ∧
      fs.readSource "/p\x00" = .error (.unreadable .nulInPath) := by
  intro fs
  have ha : Utf8.Text ['a'] [0x61] := .cons (.one (by decide) rfl) .nil
  refine ⟨((readSource_decided fs _).1 _).2 ⟨_, ⟨_, rfl, rfl⟩, ?_⟩,
    (readSource_decided fs _).2.2.2.1.2 ⟨['a'], [0x61], [0xED, 0xA0, 0x80], ⟨_, rfl, rfl⟩, ha, ?_⟩,
    (readSource_decided fs _).2.2.2.1.2 ⟨['a'], [0x61], [0xE2, 0x82], ⟨_, rfl, rfl⟩, ha, ?_⟩,
    ((readSource_decided fs _).2.2.2.2.2.1 _).2 (.inr ⟨rfl, [], rfl⟩),
    (readSource_decided fs _).2.2.2.2.2.2.1 _ (by decide)⟩
  · exact .cons Utf8.character_mark ha
  · exact .surrogate rfl (by decide) (by decide)
  · have heuro : Utf8.Character 0x20AC ([0xE2, 0x82] ++ [0xAC]) :=
      .three (by decide) (by decide) (by decide) (by decide) (by decide) (by decide) (by decide)
    have hend : ∀ b, ([] : List UInt8).head? = some b → ¬Utf8.IsTail b := by simp
    exact .broken heuro (by decide) (by decide) hend

end ImportScan.FileSystem
