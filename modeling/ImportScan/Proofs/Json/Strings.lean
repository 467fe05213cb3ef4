import ImportScan.Json.StringLiteral
import ImportScan.Proofs.Json.Grammar
import Mathlib.Tactic.IntervalCases

/-!
Strings as they are read, passed over and written, against the grammar. Reading gives the text whose
UTF-16 code units the string stands for, and fails exactly when there is none; passing over asks for
the grammar only; what is written is a string of the text.
-/

namespace ImportScan.Json

/-! ### Code units -/

theorem toNat_valid (c : Char) : c.toNat < 0xd800 ∨ (0xdfff < c.toNat ∧ c.toNat < 0x110000) :=
  c.valid

theorem toNat_ofNat_of_isValidChar {n : ℕ} (h : n.isValidChar) : (Char.ofNat n).toNat = n := by
  rw [Char.ofNat, dif_pos h]
  rfl

theorem codeUnits_of_lt {c : Char} (h : c.toNat < 0x10000) : codeUnits c = [c.toNat] := if_pos h

theorem codeUnits_ofNat {n : ℕ} (h : n < 0x10000) (hlow : StringLiteral.isLowSurrogate n = false)
    (hhigh : StringLiteral.isHighSurrogate n = false) : codeUnits (Char.ofNat n) = [n] := by
  have hvalid : n.isValidChar := by
    simp only [StringLiteral.isLowSurrogate, StringLiteral.isHighSurrogate, Bool.and_eq_false_iff,
      decide_eq_false_iff_not] at hlow hhigh
    unfold Nat.isValidChar
    omega
  have hn := toNat_ofNat_of_isValidChar hvalid
  rw [codeUnits_of_lt (by omega), hn]

theorem isLowSurrogate_of_high {n : ℕ} (h : StringLiteral.isHighSurrogate n = true) :
    StringLiteral.isLowSurrogate n = false := by
  simp only [StringLiteral.isLowSurrogate, StringLiteral.isHighSurrogate, Bool.and_eq_true,
    decide_eq_true_eq, Bool.and_eq_false_iff, decide_eq_false_iff_not] at h ⊢
  omega

/-- The character that a pair of surrogates stands for. -/
@[irreducible] def pairChar (high low : ℕ) : Char :=
  Char.ofNat (0x10000 + (high - 0xd800) * 0x400 + (low - 0xdc00))

theorem pairChar_eq (high low : ℕ) :
    pairChar high low = Char.ofNat (0x10000 + (high - 0xd800) * 0x400 + (low - 0xdc00)) := by
  unfold pairChar
  rfl

theorem codeUnits_pairChar {high low : ℕ} (hhigh : StringLiteral.isHighSurrogate high = true)
    (hlow : StringLiteral.isLowSurrogate low = true) :
    codeUnits (pairChar high low) = [high, low] := by
  rw [pairChar_eq]
  simp only [StringLiteral.isLowSurrogate, StringLiteral.isHighSurrogate, Bool.and_eq_true,
    decide_eq_true_eq] at hlow hhigh
  set n := 0x10000 + (high - 0xd800) * 0x400 + (low - 0xdc00) with hn
  have hvalid : n.isValidChar := by unfold Nat.isValidChar; omega
  rw [codeUnits, toNat_ofNat_of_isValidChar hvalid, if_neg (by omega)]
  simp only [List.cons.injEq, and_true]
  omega

/-- A character is one code unit that is no surrogate, or a pair of surrogates. -/
theorem codeUnits_cases (c : Char) :
    (codeUnits c = [c.toNat] ∧ c.toNat < 0x10000 ∧
      StringLiteral.isLowSurrogate c.toNat = false ∧
      StringLiteral.isHighSurrogate c.toNat = false) ∨
    ∃ high low, codeUnits c = [high, low] ∧ StringLiteral.isHighSurrogate high = true ∧
      StringLiteral.isLowSurrogate low = true ∧
      c = pairChar high low := by
  have hvalid := toNat_valid c
  by_cases h : c.toNat < 0x10000
  · left
    simp only [StringLiteral.isLowSurrogate, StringLiteral.isHighSurrogate, Bool.and_eq_false_iff,
      decide_eq_false_iff_not]
    exact ⟨codeUnits_of_lt h, h, by omega, by omega⟩
  · right
    refine ⟨_, _, if_neg h, ?_, ?_, ?_⟩
    · simp only [StringLiteral.isHighSurrogate, Bool.and_eq_true, decide_eq_true_eq]
      omega
    · simp only [StringLiteral.isLowSurrogate, Bool.and_eq_true, decide_eq_true_eq]
      omega
    · have hsum : 0x10000 + (0xd800 + (c.toNat - 0x10000) / 0x400 - 0xd800) * 0x400 +
          (0xdc00 + (c.toNat - 0x10000) % 0x400 - 0xdc00) = c.toNat := by omega
      rw [pairChar_eq, hsum, Char.ofNat_toNat]

/-- Code units are read in one way only. -/
theorem codeUnits_append_inj {c d : Char} {us vs : List ℕ}
    (h : codeUnits c ++ us = codeUnits d ++ vs) : c = d ∧ us = vs := by
  rcases codeUnits_cases c with ⟨hc, -, -, hnc⟩ | ⟨high, low, hc, hhigh, hlow, hcp⟩ <;>
    rcases codeUnits_cases d with ⟨hd, -, -, hnd⟩ | ⟨high', low', hd, hhigh', hlow', hdp⟩ <;>
    rw [hc, hd] at h <;> simp only [List.cons_append, List.nil_append, List.cons.injEq] at h
  · exact ⟨Char.toNat_inj.1 h.1, h.2⟩
  · rw [h.1, hhigh'] at hnc
    exact absurd hnc (by simp)
  · rw [← h.1, hhigh] at hnd
    exact absurd hnd (by simp)
  · rw [hcp, hdp, h.1, h.2.1]
    exact ⟨rfl, h.2.2⟩

theorem codeUnits_ne_nil (c : Char) : codeUnits c ≠ [] := by
  rw [codeUnits]
  split <;> simp

@[simp] theorem utf16_nil : utf16 [] = [] := rfl

@[simp] theorem utf16_cons (c : Char) (text : List Char) :
    utf16 (c :: text) = codeUnits c ++ utf16 text := rfl

theorem utf16_injective {s t : List Char} (h : utf16 s = utf16 t) : s = t := by
  induction s generalizing t with
  | nil =>
    cases t with
    | nil => rfl
    | cons d t => exact absurd (List.append_eq_nil_iff.1 h.symm).1 (codeUnits_ne_nil d)
  | cons c s ih =>
    cases t with
    | nil => exact absurd (List.append_eq_nil_iff.1 h).1 (codeUnits_ne_nil c)
    | cons d t =>
      obtain ⟨rfl, hrest⟩ := codeUnits_append_inj h
      rw [ih hrest]

theorem unitsOf_injective {s t : String} (h : unitsOf s = unitsOf t) : s = t :=
  String.toList_injective (utf16_injective h)

/-! ### Hexadecimal digits -/

theorem IsHex.lt {c : Char} {n : ℕ} (h : IsHex c n) : n < 16 := by
  rcases h with h | h <;> exact (List.getElem?_eq_some_iff.1 h).1

theorem StringLiteral.hexDigit?_eq_some {c : Char} {n : ℕ} :
    StringLiteral.hexDigit? c = some n ↔ IsHex c n := by
  constructor
  · intro h
    rw [StringLiteral.hexDigit?] at h
    have hc : c = Char.ofNat c.toNat := (Char.ofNat_toNat c).symm
    split_ifs at h with hdigit hlower hupper
    all_goals
      obtain rfl := Option.some.inj h
    · have h1 : 48 ≤ c.toNat ∧ c.toNat ≤ 57 := by
        simpa [Char.isDigit, UInt32.le_iff_toNat_le] using hdigit
      left
      generalize c.toNat = m at *
      obtain ⟨hl, hr⟩ := h1
      interval_cases m <;> subst hc <;> rfl
    · have h1 : 97 ≤ c.toNat ∧ c.toNat ≤ 102 := hlower
      left
      generalize c.toNat = m at *
      obtain ⟨hl, hr⟩ := h1
      interval_cases m <;> subst hc <;> rfl
    · have h1 : 65 ≤ c.toNat ∧ c.toNat ≤ 70 := hupper
      right
      generalize c.toNat = m at *
      obtain ⟨hl, hr⟩ := h1
      interval_cases m <;> subst hc <;> rfl
  · intro h
    have hn := h.lt
    rcases h with h | h <;> interval_cases n <;> obtain rfl := Option.some.inj h <;> decide

theorem IsUnit.lt {digits : List Char} {n : ℕ} (h : IsUnit digits n) : n < 0x10000 := by
  obtain ⟨h1, h2, h3, h4⟩ := h
  have := h1.lt
  have := h2.lt
  have := h3.lt
  have := h4.lt
  omega

theorem StringLiteral.readHex_eq_ok {s rest : List Char} {n : ℕ} :
    StringLiteral.readHex s = .ok (n, rest) ↔ ∃ digits, IsUnit digits n ∧ s = digits ++ rest := by
  constructor
  · intro h
    unfold StringLiteral.readHex at h
    split at h
    · split at h
      · rename_i ha hb hc hd
        obtain ⟨rfl, rfl⟩ := Prod.mk.inj (Except.ok.inj h)
        exact ⟨_, .mk (hexDigit?_eq_some.1 ha) (hexDigit?_eq_some.1 hb)
          (hexDigit?_eq_some.1 hc) (hexDigit?_eq_some.1 hd), rfl⟩
      · exact absurd h (by simp)
    · exact absurd h (by simp)
  · rintro ⟨digits, ⟨h1, h2, h3, h4⟩, rfl⟩
    simp only [List.cons_append, List.nil_append, StringLiteral.readHex,
      hexDigit?_eq_some.2 h1, hexDigit?_eq_some.2 h2, hexDigit?_eq_some.2 h3,
      hexDigit?_eq_some.2 h4]

/-! ### Pieces and characters -/

theorem StringLiteral.shortEscape?_eq_some {letter c : Char} :
    StringLiteral.shortEscape? letter = some c ↔ (letter, c) ∈ shortEscapes := by
  simp only [shortEscapes, List.mem_cons, Prod.mk.injEq, List.not_mem_nil, or_false]
  constructor
  · intro h
    unfold StringLiteral.shortEscape? at h
    split at h
    case h_9 => exact absurd h (by simp)
    all_goals
      obtain rfl := Option.some.inj h
      simp
  · rintro (⟨rfl, rfl⟩ | ⟨rfl, rfl⟩ | ⟨rfl, rfl⟩ | ⟨rfl, rfl⟩ | ⟨rfl, rfl⟩ | ⟨rfl, rfl⟩ |
      ⟨rfl, rfl⟩ | ⟨rfl, rfl⟩) <;> rfl

theorem ne_u_of_shortEscape {letter c : Char} (h : (letter, c) ∈ shortEscapes) : letter ≠ 'u' := by
  rintro rfl
  simp [shortEscapes] at h

/-- One character of a string, as one piece or as the two pieces of a pair. -/
inductive IsCharacter : List Char → Char → Prop where
  | plain {c : Char} (quote : c ≠ '\x22') (backslash : c ≠ '\\') (control : ' ' ≤ c) :
      IsCharacter [c] c
  | short {letter c : Char} (mem : (letter, c) ∈ shortEscapes) : IsCharacter ['\\', letter] c
  | unit {digits : List Char} {n : ℕ} (h : IsUnit digits n)
      (low : StringLiteral.isLowSurrogate n = false)
      (high : StringLiteral.isHighSurrogate n = false) :
      IsCharacter ('\\' :: 'u' :: digits) (Char.ofNat n)
  | pair {digits others : List Char} {n m : ℕ} (first : IsUnit digits n) (second : IsUnit others m)
      (high : StringLiteral.isHighSurrogate n = true)
      (low : StringLiteral.isLowSurrogate m = true) :
      IsCharacter ('\\' :: 'u' :: (digits ++ '\\' :: 'u' :: others)) (pairChar n m)

theorem IsPiece.units_ne_nil {s : List Char} {us : List ℕ} (h : IsPiece s us) : us ≠ [] := by
  cases h with
  | plain _ _ _ => exact codeUnits_ne_nil _
  | short _ => exact codeUnits_ne_nil _
  | unit _ => exact List.cons_ne_nil _ _

theorem IsPiece.ne_nil {s : List Char} {us : List ℕ} (h : IsPiece s us) : s ≠ [] := by
  cases h <;> exact List.cons_ne_nil _ _

theorem isBody_nil_iff {us : List ℕ} : IsBody [] us ↔ us = [] := by
  constructor
  · intro h
    generalize hs : [] = s at h
    cases h with
    | nil => rfl
    | cons hpiece _ => exact absurd (List.append_eq_nil_iff.1 hs.symm).1 hpiece.ne_nil
  · rintro rfl
    exact .nil

theorem isBody_units_nil_iff {s : List Char} : IsBody s [] ↔ s = [] := by
  constructor
  · intro h
    generalize hus : [] = us at h
    cases h with
    | nil => rfl
    | cons hpiece _ => exact absurd (List.append_eq_nil_iff.1 hus.symm).1 hpiece.units_ne_nil
  · rintro rfl
    exact .nil

/-- A piece whose first code unit is a low surrogate is an escape of that code unit. -/
theorem IsPiece.eq_of_low {s : List Char} {us vs ws : List ℕ} {low : ℕ} (h : IsPiece s us)
    (hlow : StringLiteral.isLowSurrogate low = true) (heq : us ++ vs = low :: ws) :
    ∃ digits, IsUnit digits low ∧ s = '\\' :: 'u' :: digits ∧ vs = ws := by
  have hchar (c : Char) : codeUnits c ++ vs ≠ low :: ws := by
    intro hc
    rcases codeUnits_cases c with ⟨hcu, -, hnot, -⟩ | ⟨high, low', hcu, hhigh, -, -⟩
    · rw [hcu] at hc
      obtain ⟨rfl, -⟩ := List.cons.inj hc
      exact absurd (hnot.symm.trans hlow) (by simp)
    · rw [hcu] at hc
      obtain ⟨rfl, -⟩ := List.cons.inj hc
      simp only [StringLiteral.isLowSurrogate, StringLiteral.isHighSurrogate, Bool.and_eq_true,
        decide_eq_true_eq] at hlow hhigh
      omega
  cases h with
  | plain _ _ _ => exact absurd heq (hchar _)
  | short _ => exact absurd heq (hchar _)
  | unit hdigits =>
    obtain ⟨rfl, hrest⟩ := List.cons.inj heq
    exact ⟨_, hdigits, rfl, hrest⟩

/-- What stands for the code units of a character and some more begins with that character. -/
theorem isBody_append_iff {s : List Char} {c : Char} {us : List ℕ} :
    IsBody s (codeUnits c ++ us) ↔ ∃ p t, IsCharacter p c ∧ IsBody t us ∧ s = p ++ t := by
  constructor
  · intro h
    generalize hv : codeUnits c ++ us = vs at h
    cases h with
    | nil => exact absurd (List.append_eq_nil_iff.1 hv).1 (codeUnits_ne_nil c)
    | @cons piece rest units more hpiece hrest =>
      cases hpiece with
      | plain hquote hbackslash hcontrol =>
        obtain ⟨rfl, rfl⟩ := codeUnits_append_inj hv
        exact ⟨_, _, .plain hquote hbackslash hcontrol, hrest, rfl⟩
      | short hmem =>
        obtain ⟨rfl, rfl⟩ := codeUnits_append_inj hv
        exact ⟨_, _, .short hmem, hrest, rfl⟩
      | @unit digits n hdigits =>
        rcases codeUnits_cases c with ⟨hc, -, hlow, hhigh⟩ | ⟨high, low, hc, hhigh, hlow, hpair⟩
        · rw [hc] at hv
          obtain ⟨rfl, rfl⟩ := List.cons.inj hv
          rw [← Char.ofNat_toNat c]
          exact ⟨_, _, .unit hdigits hlow hhigh, hrest, rfl⟩
        · -- the second half of the pair has to be the next piece
          rw [hc] at hv
          obtain ⟨rfl, hmore⟩ := List.cons.inj hv
          replace hmore : low :: us = more := hmore
          cases hrest with
          | nil => exact absurd hmore (by simp)
          | @cons piece' rest' units' more' hpiece' hrest' =>
            obtain ⟨others, hothers, rfl, rfl⟩ := hpiece'.eq_of_low hlow hmore.symm
            rw [hpair]
            exact ⟨_, _, .pair hdigits hothers hhigh hlow, hrest', by simp⟩
  · rintro ⟨p, t, hp, ht, rfl⟩
    cases hp with
    | plain hquote hbackslash hcontrol => exact .cons (.plain hquote hbackslash hcontrol) ht
    | short hmem => exact .cons (.short hmem) ht
    | unit hdigits hlow hhigh =>
      rw [codeUnits_ofNat hdigits.lt hlow hhigh]
      exact .cons (.unit hdigits) ht
    | pair hdigits hothers hhigh hlow =>
      rw [codeUnits_pairChar hhigh hlow]
      have h := IsBody.cons (.unit hdigits) (.cons (.unit hothers) ht)
      simpa using h

/-! ### Reading and passing over -/

theorem StringLiteral.skipEscape_eq_ok {s rest : List Char} :
    StringLiteral.skipEscape s = .ok rest ↔
      ∃ piece units, IsPiece ('\\' :: piece) units ∧ s = piece ++ rest := by
  constructor
  · intro h
    unfold StringLiteral.skipEscape at h
    split at h
    · exact absurd h (by simp)
    · rename_i c tail
      split_ifs at h with hu hshort
      · cases hx : StringLiteral.readHex tail with
        | error fault => rw [hx] at h; exact absurd h (by simp [Except.map])
        | ok p =>
          obtain ⟨n, after⟩ := p
          rw [hx] at h
          obtain rfl : after = rest := Except.ok.inj h
          obtain ⟨digits, hdigits, rfl⟩ := readHex_eq_ok.1 hx
          exact ⟨c :: digits, [n], hu ▸ .unit hdigits, rfl⟩
      · obtain ⟨d, hd⟩ := Option.isSome_iff_exists.1 hshort
        obtain rfl : tail = rest := Except.ok.inj h
        exact ⟨[c], _, .short (shortEscape?_eq_some.1 hd), rfl⟩
  · rintro ⟨piece, units, hpiece, rfl⟩
    cases hpiece with
    | plain _ hbackslash _ => exact absurd rfl hbackslash
    | short hmem =>
      simp [StringLiteral.skipEscape, ne_u_of_shortEscape hmem, shortEscape?_eq_some.2 hmem]
    | unit hdigits =>
      simp [StringLiteral.skipEscape, readHex_eq_ok.2 ⟨_, hdigits, rfl⟩, Except.map]

theorem StringLiteral.readPair_eq_ok {high : ℕ} {s rest : List Char} {c : Char} :
    StringLiteral.readPair high s = .ok (c, rest) ↔
      ∃ digits low, IsUnit digits low ∧ StringLiteral.isLowSurrogate low = true ∧
        c = pairChar high low ∧ s = '\\' :: 'u' :: (digits ++ rest) := by
  constructor
  · intro h
    unfold StringLiteral.readPair at h
    split at h
    · exact absurd h (by simp)
    · exact absurd h (by simp)
    · split at h
      · exact absurd h (by simp)
      · rename_i low after hx
        obtain ⟨digits, hdigits, rfl⟩ := readHex_eq_ok.1 hx
        split_ifs at h with hlow
        · simp only [Except.ok.injEq, Prod.mk.injEq] at h
          obtain ⟨hc, rfl⟩ := h
          exact ⟨digits, low, hdigits, hlow, by rw [← hc, pairChar_eq], rfl⟩
    · exact absurd h (by simp)
    · exact absurd h (by simp)
  · rintro ⟨digits, low, hdigits, hlow, rfl, rfl⟩
    simp only [StringLiteral.readPair, readHex_eq_ok.2 ⟨_, hdigits, rfl⟩, if_pos hlow, pairChar_eq]

theorem StringLiteral.readEscape_eq_ok {s rest : List Char} {c : Char} :
    StringLiteral.readEscape s = .ok (c, rest) ↔
      ∃ escape, IsCharacter ('\\' :: escape) c ∧ s = escape ++ rest := by
  constructor
  · intro h
    unfold StringLiteral.readEscape at h
    split at h
    · exact absurd h (by simp)
    · rename_i letter tail
      split_ifs at h with hu
      · subst hu
        unfold StringLiteral.readUnicode at h
        split at h
        · exact absurd h (by simp)
        · rename_i n after hx
          obtain ⟨digits, hdigits, rfl⟩ := readHex_eq_ok.1 hx
          split_ifs at h with hlow hhigh
          · obtain ⟨others, low, hothers, hlow, rfl, rfl⟩ := readPair_eq_ok.1 h
            exact ⟨_, .pair hdigits hothers hhigh hlow, by simp⟩
          · simp only [Except.ok.injEq, Prod.mk.injEq] at h
            obtain ⟨rfl, rfl⟩ := h
            exact ⟨_, .unit hdigits (by simpa using hlow) (by simpa using hhigh), rfl⟩
      · split at h
        · rename_i d hd
          obtain ⟨rfl, rfl⟩ := Prod.mk.inj (Except.ok.inj h)
          exact ⟨[letter], .short (shortEscape?_eq_some.1 hd), rfl⟩
        · exact absurd h (by simp)
  · rintro ⟨escape, hescape, rfl⟩
    cases hescape with
    | plain _ hbackslash _ => exact absurd rfl hbackslash
    | short hmem =>
      simp [StringLiteral.readEscape, ne_u_of_shortEscape hmem, shortEscape?_eq_some.2 hmem]
    | unit hdigits hlow hhigh =>
      simp [StringLiteral.readEscape, StringLiteral.readUnicode,
        readHex_eq_ok.2 ⟨_, hdigits, rfl⟩, hlow, hhigh]
    | pair hdigits hothers hhigh hlow =>
      simp only [StringLiteral.readEscape, StringLiteral.readUnicode, List.cons_append,
        List.append_assoc, if_true, readHex_eq_ok.2 ⟨_, hdigits, rfl⟩, hhigh,
        isLowSurrogate_of_high hhigh, Bool.false_eq_true, if_false]
      exact readPair_eq_ok.2 ⟨_, _, hothers, hlow, rfl, rfl⟩

theorem StringLiteral.skip_backslash {piece rest : List Char} {units : List ℕ}
    (h : IsPiece ('\\' :: piece) units) :
    StringLiteral.skip ('\\' :: (piece ++ rest)) = StringLiteral.skip rest := by
  have he : StringLiteral.skipEscape (piece ++ rest) = .ok rest :=
    skipEscape_eq_ok.2 ⟨piece, units, h, rfl⟩
  rw [StringLiteral.skip, if_neg (by decide), if_pos rfl]
  split
  · rename_i fault hfault
    exact absurd (hfault.symm.trans he) (by simp)
  · rename_i after hafter
    obtain rfl : after = rest := Except.ok.inj (hafter.symm.trans he)
    rfl

theorem StringLiteral.skip_eq_ok {s rest : List Char} :
    StringLiteral.skip s = .ok rest ↔
      ∃ body units, IsBody body units ∧ s = body ++ '\x22' :: rest := by
  constructor
  · intro h
    fun_induction StringLiteral.skip s with
    | case1 => exact absurd h (by simp)
    | case2 tail =>
      obtain rfl : tail = rest := Except.ok.inj h
      exact ⟨[], [], .nil, rfl⟩
    | case3 => exact absurd h (by simp)
    | case4 tail after he _ ih =>
      obtain ⟨body, units, hbody, rfl⟩ := ih h
      obtain ⟨piece, us, hpiece, rfl⟩ := skipEscape_eq_ok.1 he
      exact ⟨_, _, .cons hpiece hbody, by simp⟩
    | case5 => exact absurd h (by simp)
    | case6 c tail hquote hbackslash hcontrol ih =>
      obtain ⟨body, units, hbody, rfl⟩ := ih h
      exact ⟨_, _, .cons (.plain hquote hbackslash (Char.not_lt.1 hcontrol)) hbody, by simp⟩
  · rintro ⟨body, units, hbody, rfl⟩
    induction hbody with
    | nil => rw [List.nil_append, StringLiteral.skip, if_pos rfl]
    | cons hpiece _ ih =>
      rw [List.append_assoc]
      cases hpiece with
      | plain hquote hbackslash hcontrol =>
        rw [List.singleton_append, StringLiteral.skip, if_neg hquote, if_neg hbackslash,
          if_neg (Char.not_lt.2 hcontrol), ih]
      | short hmem => exact (skip_backslash (.short hmem)).trans ih
      | unit hdigits => exact (skip_backslash (.unit hdigits)).trans ih

theorem StringLiteral.read_backslash {escape rest : List Char} {c : Char}
    (h : IsCharacter ('\\' :: escape) c) :
    StringLiteral.read ('\\' :: (escape ++ rest)) =
      (StringLiteral.read rest).map fun (text, rest) => (c :: text, rest) := by
  have he : StringLiteral.readEscape (escape ++ rest) = .ok (c, rest) :=
    readEscape_eq_ok.2 ⟨escape, h, rfl⟩
  rw [StringLiteral.read, if_neg (by decide), if_pos rfl]
  split
  · rename_i fault hfault
    exact absurd (hfault.symm.trans he) (by simp)
  · rename_i d after hafter
    obtain ⟨rfl, rfl⟩ := Prod.mk.inj (Except.ok.inj (hafter.symm.trans he))
    rfl

theorem StringLiteral.read_character {p rest : List Char} {c : Char} (h : IsCharacter p c) :
    StringLiteral.read (p ++ rest) =
      (StringLiteral.read rest).map fun (text, rest) => (c :: text, rest) := by
  cases h with
  | plain hquote hbackslash hcontrol =>
    rw [List.singleton_append, StringLiteral.read, if_neg hquote, if_neg hbackslash,
      if_neg (Char.not_lt.2 hcontrol)]
  | short hmem => exact read_backslash (.short hmem)
  | unit hdigits hlow hhigh => exact read_backslash (.unit hdigits hlow hhigh)
  | pair hdigits hothers hhigh hlow => exact read_backslash (.pair hdigits hothers hhigh hlow)

/-- A string is read as the text of which it has the code units. -/
theorem StringLiteral.read_eq_ok {s text rest : List Char} :
    StringLiteral.read s = .ok (text, rest) ↔
      ∃ body, IsBody body (utf16 text) ∧ s = body ++ '\x22' :: rest := by
  constructor
  · intro h
    fun_induction StringLiteral.read s generalizing text rest with
    | case1 => exact absurd h (by simp)
    | case2 tail =>
      obtain ⟨rfl, rfl⟩ := Prod.mk.inj (Except.ok.inj h)
      exact ⟨[], .nil, rfl⟩
    | case3 => exact absurd h (by simp)
    | case4 tail d after he _ ih =>
      obtain ⟨escape, hescape, rfl⟩ := readEscape_eq_ok.1 he
      cases hr : StringLiteral.read after with
      | error fault => rw [hr] at h; exact absurd h (by simp [Except.map])
      | ok p =>
        rw [hr] at h
        obtain ⟨rfl, rfl⟩ := Prod.mk.inj (Except.ok.inj h)
        obtain ⟨body, hbody, hafter⟩ := ih hr
        exact ⟨_, isBody_append_iff.2 ⟨_, _, hescape, hbody, rfl⟩, by simp [hafter]⟩
    | case5 => exact absurd h (by simp)
    | case6 c tail hquote hbackslash hcontrol ih =>
      cases hr : StringLiteral.read tail with
      | error fault => rw [hr] at h; exact absurd h (by simp [Except.map])
      | ok p =>
        rw [hr] at h
        obtain ⟨rfl, rfl⟩ := Prod.mk.inj (Except.ok.inj h)
        obtain ⟨body, hbody, htail⟩ := ih hr
        have hc : IsCharacter [c] c := .plain hquote hbackslash (Char.not_lt.1 hcontrol)
        exact ⟨_, isBody_append_iff.2 ⟨_, _, hc, hbody, rfl⟩, by simp [htail]⟩
  · rintro ⟨body, hbody, rfl⟩
    induction text generalizing body with
    | nil =>
      obtain rfl := isBody_units_nil_iff.1 hbody
      rw [List.nil_append, StringLiteral.read, if_pos rfl]
    | cons c text ih =>
      obtain ⟨p, t, hp, ht, rfl⟩ := isBody_append_iff.1 hbody
      rw [List.append_assoc, read_character hp, ih t ht]
      rfl

/-! ### One meaning for each string -/

theorem IsPiece.unique {p p' s s' : List Char} {us us' : List ℕ} (h : IsPiece p us)
    (h' : IsPiece p' us') (heq : p ++ s = p' ++ s') : us = us' ∧ s = s' := by
  cases h with
  | @plain c hquote hbackslash hcontrol =>
    cases h' with
    | plain _ _ _ =>
      obtain ⟨rfl, hs⟩ := List.cons.inj heq
      exact ⟨rfl, hs⟩
    | short _ => exact absurd (List.cons.inj heq).1 hbackslash
    | unit _ => exact absurd (List.cons.inj heq).1 hbackslash
  | short hmem =>
    cases h' with
    | plain _ hbackslash _ => exact absurd (List.cons.inj heq).1.symm hbackslash
    | short hmem' =>
      simp only [List.cons_append, List.nil_append, List.cons.injEq, true_and] at heq
      obtain ⟨rfl, hs⟩ := heq
      have hc := (StringLiteral.shortEscape?_eq_some.2 hmem).symm.trans
        (StringLiteral.shortEscape?_eq_some.2 hmem')
      exact ⟨by rw [Option.some.inj hc], hs⟩
    | unit _ =>
      simp only [List.cons_append, List.nil_append, List.cons.injEq, true_and] at heq
      exact absurd heq.1 (ne_u_of_shortEscape hmem)
  | unit hdigits =>
    cases h' with
    | plain _ hbackslash _ => exact absurd (List.cons.inj heq).1.symm hbackslash
    | short hmem =>
      simp only [List.cons_append, List.nil_append, List.cons.injEq, true_and] at heq
      exact absurd heq.1.symm (ne_u_of_shortEscape hmem)
    | unit hdigits' =>
      simp only [List.cons_append, List.cons.injEq, true_and] at heq
      have hread := (StringLiteral.readHex_eq_ok.2 ⟨_, hdigits, rfl⟩).symm.trans
        (heq ▸ StringLiteral.readHex_eq_ok.2 ⟨_, hdigits', rfl⟩)
      obtain ⟨rfl, rfl⟩ := Prod.mk.inj (Except.ok.inj hread)
      exact ⟨rfl, rfl⟩

theorem IsBody.unique {s : List Char} {us us' : List ℕ} (h : IsBody s us) (h' : IsBody s us') :
    us = us' := by
  induction h generalizing us' with
  | nil => exact (isBody_nil_iff.1 h').symm
  | @cons piece rest units more hpiece _ ih =>
    generalize hs : piece ++ rest = s at h'
    cases h' with
    | nil => exact absurd (List.append_eq_nil_iff.1 hs).1 hpiece.ne_nil
    | cons hpiece' hrest' =>
      obtain ⟨rfl, rfl⟩ := hpiece.unique hpiece' hs
      rw [ih hrest']

theorem IsString.unique {s : List Char} {us us' : List ℕ} (h : IsString s us)
    (h' : IsString s us') : us = us' := by
  obtain ⟨body, hbody, rfl⟩ := h
  obtain ⟨body', hbody', heq⟩ := h'
  obtain rfl : body = body' := List.append_cancel_right (List.cons.inj heq).2
  exact hbody.unique hbody'

/-! ### Writing -/

theorem digitChar_isHex {n : ℕ} (h : n < 16) : IsHex (Nat.digitChar n) n := by
  left
  interval_cases n <;> rfl

theorem isPiece_escape (c : Char) : IsPiece (StringLiteral.escape c) (codeUnits c) := by
  unfold StringLiteral.escape
  split
  case h_8 =>
    rename_i hquote hbackslash _ _ _ _ _
    split_ifs with hcontrol
    · have hlt : c.toNat < 32 := hcontrol
      have hunit : IsUnit (['0', '0'] ++ StringLiteral.twoHex c.toNat)
          (((0 * 16 + 0) * 16 + c.toNat / 16) * 16 + c.toNat % 16) :=
        .mk (.inl rfl) (.inl rfl) (digitChar_isHex (by omega)) (digitChar_isHex (by omega))
      have hn : ((0 * 16 + 0) * 16 + c.toNat / 16) * 16 + c.toNat % 16 = c.toNat := by omega
      rw [hn] at hunit
      rw [codeUnits_of_lt (by omega)]
      exact .unit hunit
    · exact .plain hquote hbackslash (Char.not_lt.1 hcontrol)
  all_goals exact .short (by simp [shortEscapes])

/-- A written string has the code units of its text. -/
theorem isString_write (text : List Char) : IsString (StringLiteral.write text) (utf16 text) := by
  refine ⟨text.flatMap StringLiteral.escape, ?_, rfl⟩
  induction text with
  | nil => exact .nil
  | cons c text ih => exact .cons (isPiece_escape c) ih

end ImportScan.Json
