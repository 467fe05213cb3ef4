import ImportScan.Proofs.Utf8

/-!
Strict UTF-8 by its table of bytes. `Character` lists the byte sequences that stand for a character
and the code point of each, `Text` puts them one after another, and `Fault` says in which ways bytes
can go wrong. Encoding agrees with the table (`text_iff`), and bytes that are no text have a first
fault behind some text (`text_or_fault`, `Fault.not_text`).
-/

namespace ImportScan.Utf8

/-- A byte that goes on with a character, and carries six more bits of its code point. -/
def IsTail (b : UInt8) : Prop := 0x80 ≤ b.toNat ∧ b.toNat ≤ 0xBF

instance (b : UInt8) : Decidable (IsTail b) :=
  inferInstanceAs (Decidable (0x80 ≤ b.toNat ∧ b.toNat ≤ 0xBF))

/-- The byte sequences of characters, each with the code point that its bits make up. The bounds on
the second byte keep out longer forms of smaller code points, surrogates, and what lies beyond the
last code point. -/
inductive Character : ℕ → List UInt8 → Prop
  | one {n : ℕ} {a : UInt8} : a.toNat ≤ 0x7F → n = a.toNat → Character n [a]
  | two {n : ℕ} {a b : UInt8} : 0xC2 ≤ a.toNat → a.toNat ≤ 0xDF → IsTail b →
      n = (a.toNat - 0xC0) * 64 + (b.toNat - 0x80) → Character n [a, b]
  | three {n : ℕ} {a b c : UInt8} : 0xE0 ≤ a.toNat → a.toNat ≤ 0xEF → IsTail b →
      (a.toNat = 0xE0 → 0xA0 ≤ b.toNat) → (a.toNat = 0xED → b.toNat ≤ 0x9F) → IsTail c →
      n = ((a.toNat - 0xE0) * 64 + (b.toNat - 0x80)) * 64 + (c.toNat - 0x80) →
      Character n [a, b, c]
  | four {n : ℕ} {a b c d : UInt8} : 0xF0 ≤ a.toNat → a.toNat ≤ 0xF4 → IsTail b →
      (a.toNat = 0xF0 → 0x90 ≤ b.toNat) → (a.toNat = 0xF4 → b.toNat ≤ 0x8F) → IsTail c → IsTail d →
      n = (((a.toNat - 0xF0) * 64 + (b.toNat - 0x80)) * 64 + (c.toNat - 0x80)) * 64 +
        (d.toNat - 0x80) → Character n [a, b, c, d]

/-- The bytes of a text: a sequence for each of its characters. -/
inductive Text : List Char → List UInt8 → Prop
  | nil : Text [] []
  | cons {c : Char} {chars : List Char} {front rest : List UInt8} : Character c.toNat front →
      Text chars rest → Text (c :: chars) (front ++ rest)

/-- Bytes that no character stands at the front of, by the way in which they go wrong. -/
inductive Fault : List UInt8 → Prop
  /-- A byte that goes on with a character where none has begun. -/
  | stray {a : UInt8} {rest : List UInt8} : IsTail a → Fault (a :: rest)
  /-- Two bytes for what one can say. -/
  | overlongTwo {a : UInt8} {rest : List UInt8} : 0xC0 ≤ a.toNat → a.toNat ≤ 0xC1 →
      Fault (a :: rest)
  /-- Three bytes for what two can say. -/
  | overlongThree {a b : UInt8} {rest : List UInt8} : a.toNat = 0xE0 → IsTail b →
      b.toNat < 0xA0 → Fault (a :: b :: rest)
  /-- Four bytes for what three can say. -/
  | overlongFour {a b : UInt8} {rest : List UInt8} : a.toNat = 0xF0 → IsTail b →
      b.toNat < 0x90 → Fault (a :: b :: rest)
  /-- One half of a surrogate pair, U+D800 to U+DFFF. -/
  | surrogate {a b : UInt8} {rest : List UInt8} : a.toNat = 0xED → IsTail b → 0x9F < b.toNat →
      Fault (a :: b :: rest)
  /-- A value above U+10FFFF. -/
  | beyond {a b : UInt8} {rest : List UInt8} : a.toNat = 0xF4 → IsTail b → 0x8F < b.toNat →
      Fault (a :: b :: rest)
  /-- A byte that would begin a still larger value, or has no meaning at all. -/
  | noStart {a : UInt8} {rest : List UInt8} : 0xF5 ≤ a.toNat → Fault (a :: rest)
  /-- A character that is broken off: by a byte that does not go on with it, or by the end. -/
  | broken {n : ℕ} {start more rest : List UInt8} : Character n (start ++ more) → start ≠ [] →
      more ≠ [] → (∀ b, rest.head? = some b → ¬IsTail b) → Fault (start ++ rest)

/-- How many bytes go on with a character that begins with this one. -/
def tails (a : UInt8) : ℕ :=
  if a.toNat ≤ 0x7F then 0 else if a.toNat ≤ 0xDF then 1 else if a.toNat ≤ 0xEF then 2 else 3

variable {n m : ℕ} {a b : UInt8} {front other more rest back bytes : List UInt8}
  {chars : List Char}

/-! ### The table -/

theorem Character.range (h : Character n bytes) :
    bytes.length = 1 ∧ n < 0x80 ∨ bytes.length = 2 ∧ 0x80 ≤ n ∧ n < 0x800 ∨
      bytes.length = 3 ∧ 0x800 ≤ n ∧ n < 0x10000 ∨ bytes.length = 4 ∧ 0x10000 ≤ n := by
  cases h with unfold IsTail at *
  | one _ hn => exact .inl ⟨rfl, by omega⟩
  | two _ _ _ hn => exact .inr (.inl ⟨rfl, by omega⟩)
  | three _ _ _ _ _ _ hn => exact .inr (.inr (.inl ⟨rfl, by omega⟩))
  | four _ _ _ _ _ _ _ hn => exact .inr (.inr (.inr ⟨rfl, by omega⟩))

/-- No code point has two sequences. -/
theorem Character.unique (h : Character n front) (h' : Character n other) : front = other := by
  have hlength : front.length = other.length := by
    have hrange := h.range
    have hrange' := h'.range
    omega
  cases h with
  | one _ hn =>
    cases h' with
    | one _ hn' => rw [UInt8.toNat_inj.1 (hn.symm.trans hn')]
    | _ => cases hlength
  | two _ _ hb hn =>
    cases h' with
    | two _ _ hb' hn' =>
      unfold IsTail at hb hb'
      simp only [List.cons.injEq, and_true, ← UInt8.toNat_inj]
      omega
    | _ => cases hlength
  | three _ _ hb _ _ hc hn =>
    cases h' with
    | three _ _ hb' _ _ hc' hn' =>
      unfold IsTail at hb hc hb' hc'
      simp only [List.cons.injEq, and_true, ← UInt8.toNat_inj]
      omega
    | _ => cases hlength
  | four _ _ hb _ _ hc hd hn =>
    cases h' with
    | four _ _ hb' _ _ hc' hd' hn' =>
      unfold IsTail at hb hc hd hb' hc' hd'
      simp only [List.cons.injEq, and_true, ← UInt8.toNat_inj]
      omega
    | _ => cases hlength

/-- No sequence stands for two code points. -/
theorem Character.value_unique (h : Character n bytes) (h' : Character m bytes) : n = m := by
  cases h <;> cases h' <;> omega

/-- Code points of characters leave out surrogates and end at U+10FFFF. -/
theorem Character.isValidChar (h : Character n bytes) : n.isValidChar := by
  unfold Nat.isValidChar
  cases h with unfold IsTail at *
  | one _ hn => omega
  | two _ _ hb hn => omega
  | three _ _ hb _ _ hc hn => omega
  | four _ _ hb _ _ hc hd hn => omega

theorem Character.exists_char (h : Character n bytes) : ∃ c : Char, c.toNat = n :=
  ⟨Char.ofNat n, by rw [Char.ofNat, dif_pos h.isValidChar]; rfl⟩

theorem Character.ne_nil (h : Character n front) : front ≠ [] := by
  cases h <;> exact List.cons_ne_nil _ _

/-- Nothing but the first byte says how long a sequence is. -/
theorem Character.length_tails (h : Character n (a :: more)) : more.length = tails a := by
  unfold tails
  cases h with
  | one ha _ => rw [if_pos ha]; rfl
  | two _ _ _ _ => rw [if_neg (by omega), if_pos (by omega)]; rfl
  | three _ _ _ _ _ _ _ => rw [if_neg (by omega), if_neg (by omega), if_pos (by omega)]; rfl
  | four _ _ _ _ _ _ _ _ => rw [if_neg (by omega), if_neg (by omega), if_neg (by omega)]; rfl

theorem Character.isTail (h : Character n (a :: more)) : ∀ b ∈ more, IsTail b := by
  cases h with
  | one _ _ => exact fun _ h => absurd h List.not_mem_nil
  | two _ _ hb _ => simpa using hb
  | three _ _ hb _ _ hc _ => simpa using ⟨hb, hc⟩
  | four _ _ hb _ _ hc hd _ => simpa using ⟨hb, hc, hd⟩

/-- The bytes that a character can begin with. -/
theorem Character.first (h : Character n (a :: more)) :
    (a.toNat ≤ 0x7F ∨ 0xC2 ≤ a.toNat) ∧ a.toNat ≤ 0xF4 := by
  cases h <;> omega

/-- Where the second byte is bound by more than that it goes on with a character. -/
theorem Character.second (h : Character n front) (heq : a :: b :: bytes = front ++ rest) :
    (a.toNat = 0xE0 → 0xA0 ≤ b.toNat) ∧ (a.toNat = 0xED → b.toNat ≤ 0x9F) ∧
      (a.toNat = 0xF0 → 0x90 ≤ b.toNat) ∧ (a.toNat = 0xF4 → b.toNat ≤ 0x8F) := by
  cases h with
  | one ha _ =>
    obtain ⟨rfl, -⟩ := List.cons.inj heq
    omega
  | two _ _ _ _ =>
    obtain ⟨rfl, -⟩ := List.cons.inj heq
    omega
  | three _ _ _ hlow hhigh _ _ =>
    obtain ⟨rfl, htail⟩ := List.cons.inj heq
    obtain ⟨rfl, -⟩ := List.cons.inj htail
    exact ⟨hlow, hhigh, by omega, by omega⟩
  | four _ _ _ hlow hhigh _ _ _ =>
    obtain ⟨rfl, htail⟩ := List.cons.inj heq
    obtain ⟨rfl, -⟩ := List.cons.inj htail
    exact ⟨by omega, by omega, hlow, hhigh⟩

/-- Two characters at the front of the same bytes have the same sequence. -/
theorem Character.front_unique (h : Character n front) (h' : Character m other)
    (heq : front ++ rest = other ++ back) : front = other ∧ rest = back := by
  obtain ⟨a, more, rfl⟩ := List.exists_cons_of_ne_nil h.ne_nil
  obtain ⟨a', more', rfl⟩ := List.exists_cons_of_ne_nil h'.ne_nil
  obtain ⟨rfl, -⟩ := List.cons.inj heq
  refine List.append_inj heq ?_
  rw [List.length_cons, List.length_cons, h.length_tails, h'.length_tails]

/-! ### Encoding -/

/-- The encoding of a character is in the table. -/
theorem character_utf8EncodeChar (c : Char) : Character c.toNat (String.utf8EncodeChar c) := by
  have hvalid : c.val.toNat < 0xD800 ∨ 0xDFFF < c.val.toNat ∧ c.val.toNat < 0x110000 := c.valid
  have hval : c.toNat = c.val.toNat := rfl
  rw [hval, String.utf8EncodeChar]
  generalize c.val.toNat = v at hvalid
  split_ifs
  · have ha := UInt8.toNat_ofNat' (n := v)
    exact .one (by omega) (by omega)
  · have ha := UInt8.toNat_ofNat' (n := v / 64 % 32 + 192)
    have hb := UInt8.toNat_ofNat' (n := v % 64 + 128)
    exact .two (by omega) (by omega) ⟨by omega, by omega⟩ (by omega)
  · have ha := UInt8.toNat_ofNat' (n := v / 4096 % 16 + 224)
    have hb := UInt8.toNat_ofNat' (n := v / 64 % 64 + 128)
    have hc := UInt8.toNat_ofNat' (n := v % 64 + 128)
    exact .three (by omega) (by omega) ⟨by omega, by omega⟩ (by omega) (by omega)
      ⟨by omega, by omega⟩ (by omega)
  · have ha := UInt8.toNat_ofNat' (n := v / 262144 % 8 + 240)
    have hb := UInt8.toNat_ofNat' (n := v / 4096 % 64 + 128)
    have hc := UInt8.toNat_ofNat' (n := v / 64 % 64 + 128)
    have hd := UInt8.toNat_ofNat' (n := v % 64 + 128)
    exact .four (by omega) (by omega) ⟨by omega, by omega⟩ (by omega) (by omega)
      ⟨by omega, by omega⟩ ⟨by omega, by omega⟩ (by omega)

theorem character_iff {c : Char} :
    Character c.toNat bytes ↔ bytes = String.utf8EncodeChar c :=
  ⟨fun h => h.unique (character_utf8EncodeChar c), fun h => h ▸ character_utf8EncodeChar c⟩

/-- Texts are encoded as the table says, and in no other way. -/
theorem text_iff : Text chars bytes ↔ bytes = chars.flatMap String.utf8EncodeChar := by
  constructor
  · intro h
    induction h with
    | nil => rfl
    | cons hfront _ ih => rw [List.flatMap_cons, character_iff.1 hfront, ih]
  · rintro rfl
    induction chars with
    | nil => exact .nil
    | cons c chars ih => exact .cons (character_utf8EncodeChar c) ih

theorem text_toUTF8_iff {text : String} {content : ByteArray} :
    Text text.toList content.data.toList ↔ content = text.toUTF8 := by
  rw [text_iff, ← toList_toUTF8, Array.toList_inj, ByteArray.ext_iff]

/-- The byte order mark is a character like any other. -/
theorem character_mark : Character ('\uFEFF').toNat [0xEF, 0xBB, 0xBF] :=
  .three (by decide) (by decide) (by decide) (by decide) (by decide) (by decide) (by decide)

/-- A text begins with any character whose sequence its bytes begin with. -/
theorem Text.behind (h : Text chars bytes) (hfront : Character n front)
    (hbytes : bytes = front ++ rest) :
    ∃ c more, chars = c :: more ∧ c.toNat = n ∧ Text more rest := by
  cases h with
  | nil => exact absurd (List.append_eq_nil_iff.1 hbytes.symm).1 hfront.ne_nil
  | @cons c more first back hc hmore =>
    obtain ⟨rfl, rfl⟩ := hc.front_unique hfront hbytes
    exact ⟨c, more, rfl, hc.value_unique hfront, hmore⟩

/-! ### Faults -/

theorem Fault.ne_nil (h : Fault bytes) : bytes ≠ [] := by
  cases h with
  | broken _ hstart _ _ => exact fun h => hstart (List.append_eq_nil_iff.1 h).1
  | _ => exact List.cons_ne_nil _ _

/-- A character that is broken off is none. -/
theorem not_character_of_broken {start : List UInt8} (hstart : Character n (start ++ more))
    (hne : start ≠ []) (hmore : more ≠ []) (hhead : ∀ b, rest.head? = some b → ¬IsTail b)
    (h : Character m front) : start ++ rest ≠ front ++ back := by
  intro heq
  obtain ⟨a, start, rfl⟩ := List.exists_cons_of_ne_nil hne
  obtain ⟨a', tail, rfl⟩ := List.exists_cons_of_ne_nil h.ne_nil
  obtain ⟨rfl, htails⟩ := List.cons.inj heq
  have hlength : (start ++ more).length = tail.length :=
    (Character.length_tails hstart).trans h.length_tails.symm
  have hpos := List.length_pos_iff.2 hmore
  rw [List.length_append] at hlength
  rcases List.append_eq_append_iff.1 htails with ⟨missing, rfl, rfl⟩ | ⟨extra, rfl, -⟩
  · cases missing with
    | nil => rw [List.append_nil] at hlength; omega
    | cons b missing =>
      exact hhead b rfl (h.isTail b (List.mem_append_right _ List.mem_cons_self))
  · rw [List.length_append] at hlength
    omega

theorem Fault.not_character (hfault : Fault bytes) (h : Character n front) :
    bytes ≠ front ++ back := by
  intro heq
  have hfirst {a : UInt8} {rest : List UInt8} (heq : a :: rest = front ++ back) :
      (a.toNat ≤ 0x7F ∨ 0xC2 ≤ a.toNat) ∧ a.toNat ≤ 0xF4 := by
    obtain ⟨a', more, rfl⟩ := List.exists_cons_of_ne_nil h.ne_nil
    obtain ⟨rfl, -⟩ := List.cons.inj heq
    exact h.first
  cases hfault with
  | stray ha => have := hfirst heq; unfold IsTail at ha; omega
  | overlongTwo _ _ => have := hfirst heq; omega
  | overlongThree _ _ _ => have := h.second heq; omega
  | overlongFour _ _ _ => have := h.second heq; omega
  | surrogate _ _ _ => have := h.second heq; omega
  | beyond _ _ _ => have := h.second heq; omega
  | noStart _ => have := hfirst heq; omega
  | broken hstart hne hmore hhead => exact not_character_of_broken hstart hne hmore hhead h heq

/-- Where a character has begun, either a byte goes on with it or it is broken off. -/
theorem tail_or_fault {start : List UInt8} (h : Character n (start ++ more)) (hne : start ≠ [])
    (hmore : more ≠ []) (rest : List UInt8) :
    (∃ b back, rest = b :: back ∧ IsTail b) ∨ Fault (start ++ rest) := by
  by_cases htail : ∃ b back, rest = b :: back ∧ IsTail b
  · exact .inl htail
  · refine .inr (.broken h hne hmore fun b hb hbtail => htail ?_)
    obtain ⟨back, rfl⟩ := List.head?_eq_some_iff.1 hb
    exact ⟨b, back, rfl, hbtail⟩

theorem two_or_fault (hlow : 0xC2 ≤ a.toNat) (hhigh : a.toNat ≤ 0xDF) (rest : List UInt8) :
    (∃ n front back, a :: rest = front ++ back ∧ Character n front) ∨ Fault (a :: rest) := by
  have hstart : Character _ ([a] ++ [0x80]) := .two hlow hhigh (by decide) rfl
  rcases tail_or_fault hstart (by simp) (by simp) rest with ⟨b, back, rfl, hb⟩ | hfault
  · exact .inl ⟨_, [a, b], back, rfl, .two hlow hhigh hb rfl⟩
  · exact .inr hfault

theorem three_or_fault (hlow : 0xE0 ≤ a.toNat) (hhigh : a.toNat ≤ 0xEF) (rest : List UInt8) :
    (∃ n front back, a :: rest = front ++ back ∧ Character n front) ∨ Fault (a :: rest) := by
  have hstart : ∃ n second, Character n ([a] ++ [second, 0x80]) := by
    by_cases ha : a.toNat = 0xE0
    · exact ⟨_, 0xA0, .three hlow hhigh (by decide) (fun _ => by decide) (by omega) (by decide) rfl⟩
    · exact ⟨_, 0x80, .three hlow hhigh (by decide) (by omega) (fun _ => by decide) (by decide) rfl⟩
  obtain ⟨n, second, hstart⟩ := hstart
  rcases tail_or_fault hstart (by simp) (by simp) rest with ⟨b, rest, rfl, hb⟩ | hfault
  · by_cases hlong : a.toNat = 0xE0 ∧ b.toNat < 0xA0
    · exact .inr (.overlongThree hlong.1 hb hlong.2)
    by_cases hhalf : a.toNat = 0xED ∧ 0x9F < b.toNat
    · exact .inr (.surrogate hhalf.1 hb hhalf.2)
    have hgo (c : UInt8) (hc : IsTail c) : Character _ ([a, b] ++ [c]) :=
      .three hlow hhigh hb (by omega) (by omega) hc rfl
    rcases tail_or_fault (hgo 0x80 (by decide)) (by simp) (by simp) rest with
      ⟨c, back, rfl, hc⟩ | hfault
    · exact .inl ⟨_, [a, b, c], back, rfl, hgo c hc⟩
    · exact .inr hfault
  · exact .inr hfault

theorem four_or_fault (hlow : 0xF0 ≤ a.toNat) (hhigh : a.toNat ≤ 0xF4) (rest : List UInt8) :
    (∃ n front back, a :: rest = front ++ back ∧ Character n front) ∨ Fault (a :: rest) := by
  have hstart : ∃ n second, Character n ([a] ++ [second, 0x80, 0x80]) := by
    by_cases ha : a.toNat = 0xF0
    · exact ⟨_, 0x90, .four hlow hhigh (by decide) (fun _ => by decide) (by omega) (by decide)
        (by decide) rfl⟩
    · exact ⟨_, 0x80, .four hlow hhigh (by decide) (by omega) (fun _ => by decide) (by decide)
        (by decide) rfl⟩
  obtain ⟨n, second, hstart⟩ := hstart
  rcases tail_or_fault hstart (by simp) (by simp) rest with ⟨b, rest, rfl, hb⟩ | hfault
  · by_cases hlong : a.toNat = 0xF0 ∧ b.toNat < 0x90
    · exact .inr (.overlongFour hlong.1 hb hlong.2)
    by_cases hlarge : a.toNat = 0xF4 ∧ 0x8F < b.toNat
    · exact .inr (.beyond hlarge.1 hb hlarge.2)
    have hgo (c d : UInt8) (hc : IsTail c) (hd : IsTail d) : Character _ [a, b, c, d] :=
      .four hlow hhigh hb (by omega) (by omega) hc hd rfl
    have htail : IsTail 0x80 := by decide
    have htwo : Character _ ([a, b] ++ [0x80, 0x80]) := hgo 0x80 0x80 htail htail
    rcases tail_or_fault htwo (by simp) (by simp) rest with ⟨c, rest, rfl, hc⟩ | hfault
    · have hthree : Character _ ([a, b, c] ++ [0x80]) := hgo c 0x80 hc htail
      rcases tail_or_fault hthree (by simp) (by simp) rest with ⟨d, back, rfl, hd⟩ | hfault
      · exact .inl ⟨_, [a, b, c, d], back, rfl, hgo c d hc hd⟩
      · exact .inr hfault
    · exact .inr hfault
  · exact .inr hfault

/-- What stands where a character should: a character, or a fault. -/
theorem character_or_fault (a : UInt8) (rest : List UInt8) :
    (∃ n front back, a :: rest = front ++ back ∧ Character n front) ∨ Fault (a :: rest) := by
  have hrange : a.toNat ≤ 0x7F ∨ IsTail a ∨ (0xC0 ≤ a.toNat ∧ a.toNat ≤ 0xC1) ∨
      (0xC2 ≤ a.toNat ∧ a.toNat ≤ 0xDF) ∨ (0xE0 ≤ a.toNat ∧ a.toNat ≤ 0xEF) ∨
      (0xF0 ≤ a.toNat ∧ a.toNat ≤ 0xF4) ∨ 0xF5 ≤ a.toNat := by
    unfold IsTail
    omega
  rcases hrange with h1 | ha | ⟨hlow, hhigh⟩ | ⟨hlow, hhigh⟩ | ⟨hlow, hhigh⟩ | ⟨hlow, hhigh⟩ | ha
  · exact .inl ⟨_, [a], rest, rfl, .one h1 rfl⟩
  · exact .inr (.stray ha)
  · exact .inr (.overlongTwo hlow hhigh)
  · exact two_or_fault hlow hhigh rest
  · exact three_or_fault hlow hhigh rest
  · exact four_or_fault hlow hhigh rest
  · exact .inr (.noStart ha)

/-- Bytes are a text, or some text and then a fault. -/
theorem text_or_fault (bytes : List UInt8) : (∃ chars, Text chars bytes) ∨
    ∃ chars front rest, bytes = front ++ rest ∧ Text chars front ∧ Fault rest := by
  -- on the number of bytes: a character at the front leaves fewer
  induction hlength : bytes.length using Nat.strongRecOn generalizing bytes with
  | _ length ih =>
    subst hlength
    cases bytes with
    | nil => exact .inl ⟨[], .nil⟩
    | cons a rest =>
      rcases character_or_fault a rest with ⟨n, front, back, heq, hfront⟩ | hfault
      · obtain ⟨c, rfl⟩ := hfront.exists_char
        have hpos := List.length_pos_iff.2 hfront.ne_nil
        have hshort : back.length < (a :: rest).length := by
          rw [heq, List.length_append]
          omega
        rw [heq]
        rcases ih back.length hshort back rfl with
          ⟨chars, htext⟩ | ⟨chars, good, bad, rfl, hgood, hbad⟩
        · exact .inl ⟨c :: chars, .cons hfront htext⟩
        · refine .inr ⟨c :: chars, front ++ good, bad, ?_, .cons hfront hgood, hbad⟩
          exact (List.append_assoc _ _ _).symm
      · exact .inr ⟨[], [], a :: rest, rfl, .nil, hfault⟩

/-- Bytes with a fault behind some text are no text. -/
theorem Fault.not_text (hfault : Fault rest) (hfront : Text chars front) (other : List Char) :
    ¬Text other (front ++ rest) := by
  induction hfront generalizing other with
  | nil =>
    intro h
    cases h with
    | nil => exact hfault.ne_nil rfl
    | cons hc _ => exact hfault.not_character hc rfl
  | cons hc _ ih =>
    intro h
    obtain ⟨c', more, -, -, hmore⟩ := h.behind hc (List.append_assoc _ _ _)
    exact ih more hmore

end ImportScan.Utf8
