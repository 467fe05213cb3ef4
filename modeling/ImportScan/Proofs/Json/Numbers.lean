import ImportScan.Json.Number
import ImportScan.Proofs.Json.Grammar
import Mathlib.Tactic.IntervalCases

/-!
Numbers as they are read and written, against the grammar. Each reader takes as many characters as
it can, so a number is read back only where nothing behind it could go on with it (`Apart`).
-/

namespace ImportScan.Json

/-- The text does not go on with a digit. -/
def NoDigit (s : List Char) : Prop := ∀ c, s.head? = some c → c.isDigit = false

/-- The text goes on with nothing that could be part of a number. -/
def Apart (s : List Char) : Prop :=
  ∀ c, s.head? = some c → c.isDigit = false ∧ c ≠ '.' ∧ c ≠ 'e' ∧ c ≠ 'E'

theorem noDigit_cons {c : Char} {s : List Char} (h : c.isDigit = false) : NoDigit (c :: s) := by
  intro d hd
  obtain rfl := Option.some.inj hd
  exact h

theorem Apart.noDigit {s : List Char} (h : Apart s) : NoDigit s := fun c hc => (h c hc).1

theorem IsDigits.exists_head {s : List Char} (h : IsDigits s) :
    ∃ c rest, s = c :: rest ∧ c.isDigit = true := by
  rcases s with _ | ⟨c, rest⟩
  · exact absurd rfl h.nonempty
  · exact ⟨c, rest, rfl, h.digits c List.mem_cons_self⟩

theorem IsUnsigned.exists_head {s : List Char} {size : ℚ} (h : IsUnsigned s size) :
    ∃ c rest, s = c :: rest ∧ c.isDigit = true := by
  obtain ⟨hwhole, -, -⟩ := h
  obtain ⟨c, rest, rfl, hc⟩ := hwhole.exists_head
  exact ⟨c, _, by rw [List.append_assoc, List.cons_append], hc⟩

/-- An exponent, or what stands behind it, ends the digits before it. -/
theorem IsExponent.stops {t rest : List Char} {power : ℤ} (h : IsExponent t power)
    (hrest : Apart rest) : NoDigit (t ++ rest) ∧ (t ++ rest).head? ≠ some '.' := by
  have letter {e : Char} {tail : List Char} (he : e = 'e' ∨ e = 'E') :
      NoDigit (e :: tail) ∧ (e :: tail).head? ≠ some '.' := by
    rcases he with rfl | rfl
    · exact ⟨noDigit_cons (by decide), by simp⟩
    · exact ⟨noDigit_cons (by decide), by simp⟩
  cases h with
  | absent => exact ⟨hrest.noDigit, fun hpoint => (hrest '.' hpoint).2.1 rfl⟩
  | bare he _ => exact letter he
  | plus he _ => exact letter he
  | minus he _ => exact letter he

/-- A fraction, or what stands behind it, ends the digits before it. -/
theorem IsFraction.noDigit {t digits rest : List Char} (h : IsFraction t digits)
    (hrest : NoDigit rest) : NoDigit (t ++ rest) := by
  cases h with
  | absent => exact hrest
  | present _ => exact noDigit_cons (by decide)

namespace Number

variable {atEnd : Cause} {s rest : List Char}

/-! ### Runs of digits -/

theorem takeWhile_digits {digits : List Char} (h : ∀ c ∈ digits, c.isDigit = true)
    (hrest : NoDigit rest) : (digits ++ rest).takeWhile Char.isDigit = digits := by
  rw [List.takeWhile_append_of_pos h]
  rcases rest with _ | ⟨d, after⟩
  · simp
  · rw [List.takeWhile_cons_of_neg (by simp [hrest d rfl]), List.append_nil]

theorem dropWhile_digits {digits : List Char} (h : ∀ c ∈ digits, c.isDigit = true)
    (hrest : NoDigit rest) : (digits ++ rest).dropWhile Char.isDigit = rest := by
  rw [List.dropWhile_append_of_pos h]
  rcases rest with _ | ⟨d, after⟩
  · rfl
  · rw [List.dropWhile_cons_of_neg (by simp [hrest d rfl])]

/-- Digits are read as far as they go. -/
theorem readDigits_eq_ok {digits : List Char} :
    readDigits atEnd s = .ok (digits, rest) ↔
      IsDigits digits ∧ NoDigit rest ∧ s = digits ++ rest := by
  constructor
  · intro h
    unfold readDigits at h
    split at h
    · exact absurd h (by simp)
    · rename_i c tail
      split_ifs at h with hc
      obtain ⟨rfl, rfl⟩ := Prod.mk.inj (Except.ok.inj h)
      refine ⟨⟨?_, ?_⟩, ?_, List.takeWhile_append_dropWhile.symm⟩
      · rw [List.takeWhile_cons_of_pos hc]
        exact List.cons_ne_nil _ _
      · exact List.all_eq_true.1 List.all_takeWhile
      · intro d hd
        have hnot := List.head?_dropWhile_not Char.isDigit (c :: tail)
        rw [hd] at hnot
        exact hnot
  · rintro ⟨hdigits, hrest, rfl⟩
    have htake := takeWhile_digits hdigits.digits hrest
    have hdrop := dropWhile_digits hdigits.digits hrest
    obtain ⟨c, tail, rfl, hc⟩ := hdigits.exists_head
    rw [List.cons_append] at htake hdrop ⊢
    rw [readDigits, if_pos hc, htake, hdrop]

theorem readWhole_eq_ok {whole : List Char} :
    readWhole atEnd s = .ok (whole, rest) ↔ IsWhole whole ∧ NoDigit rest ∧ s = whole ++ rest := by
  constructor
  · intro h
    unfold readWhole at h
    split at h
    · rename_i c tail
      split_ifs at h with hc
      obtain ⟨rfl, rfl⟩ := Prod.mk.inj (Except.ok.inj h)
      refine ⟨⟨⟨List.cons_ne_nil _ _, ?_⟩, fun _ => rfl⟩, noDigit_cons (by simpa using hc), rfl⟩
      intro d hd
      obtain rfl := List.mem_singleton.1 hd
      rfl
    · rename_i hnot
      obtain ⟨hdigits, hrest, rfl⟩ := readDigits_eq_ok.1 h
      refine ⟨⟨hdigits, fun hzero => ?_⟩, hrest, rfl⟩
      obtain ⟨tail, rfl⟩ := List.head?_eq_some_iff.1 hzero
      rcases tail with _ | ⟨d, tail⟩
      · rfl
      · exact absurd rfl (hnot d (tail ++ rest))
  · rintro ⟨hwhole, hrest, rfl⟩
    unfold readWhole
    split
    · rename_i c tail heq
      obtain ⟨d, digits, rfl, -⟩ := hwhole.exists_head
      obtain ⟨rfl, htail⟩ := List.cons.inj heq
      obtain ⟨-, rfl⟩ := List.cons.inj (hwhole.lone_zero rfl)
      obtain rfl : rest = c :: tail := htail
      rw [if_neg (by simp [hrest c rfl])]
    · exact readDigits_eq_ok.2 ⟨hwhole.toIsDigits, hrest, rfl⟩

/-! ### Fraction and exponent -/

/-- The power of ten that an exponent stands for, if it is there. -/
def powerOf : Option (Bool × List Char) → ℤ
  | none => 0
  | some (negative, digits) => if negative then -numeral digits else numeral digits

/-- The amount of a number but for its sign. -/
def size (n : Number) : ℚ :=
  numeral (n.whole ++ n.fraction.getD []) *
    10 ^ (powerOf n.exponent - (n.fraction.getD []).length)

/-- The amount that a number stands for. -/
def amount (n : Number) : ℚ := if n.negative then -n.size else n.size

theorem isFraction_of_readFraction {fraction : Option (List Char)}
    (h : readFraction atEnd s = .ok (fraction, rest)) :
    ∃ t, IsFraction t (fraction.getD []) ∧ s = t ++ rest := by
  unfold readFraction at h
  split at h
  · rename_i tail
    cases hd : readDigits atEnd tail with
    | error fault => rw [hd] at h; exact absurd h (by simp [Except.map])
    | ok p =>
      rw [hd] at h
      obtain ⟨rfl, rfl⟩ := Prod.mk.inj (Except.ok.inj h)
      obtain ⟨hdigits, -, rfl⟩ := readDigits_eq_ok.1 hd
      exact ⟨_, .present hdigits, rfl⟩
  · obtain ⟨rfl, rfl⟩ := Prod.mk.inj (Except.ok.inj h)
    exact ⟨[], .absent, rfl⟩

theorem readFraction_of_isFraction (atEnd : Cause) {t digits : List Char} (h : IsFraction t digits)
    (hrest : NoDigit rest) (hpoint : rest.head? ≠ some '.') :
    ∃ fraction, readFraction atEnd (t ++ rest) = .ok (fraction, rest) ∧
      fraction.getD [] = digits := by
  cases h with
  | absent =>
    refine ⟨none, ?_, rfl⟩
    rw [List.nil_append]
    unfold readFraction
    split
    · exact absurd rfl hpoint
    · rfl
  | present hdigits =>
    refine ⟨some digits, ?_, rfl⟩
    rw [List.cons_append, readFraction, readDigits_eq_ok.2 ⟨hdigits, hrest, rfl⟩]
    rfl

theorem isExponent_of_readExponent {exponent : Option (Bool × List Char)}
    (h : readExponent atEnd s = .ok (exponent, rest)) :
    ∃ t, IsExponent t (powerOf exponent) ∧ s = t ++ rest := by
  have digits {sign : Bool} {tail : List Char}
      (hm : (readDigits atEnd tail).map (fun p => (some (sign, p.1), p.2)) =
        .ok (exponent, rest)) :
      ∃ ds, IsDigits ds ∧ exponent = some (sign, ds) ∧ tail = ds ++ rest := by
    cases hd : readDigits atEnd tail with
    | error fault => rw [hd] at hm; exact absurd hm (by simp [Except.map])
    | ok p =>
      rw [hd] at hm
      obtain ⟨rfl, rfl⟩ := Prod.mk.inj (Except.ok.inj hm)
      obtain ⟨hdigits, -, htail⟩ := readDigits_eq_ok.1 hd
      exact ⟨_, hdigits, rfl, htail⟩
  unfold readExponent at h
  split at h
  · rename_i e tail
    split_ifs at h with he
    · split at h
      · obtain ⟨ds, hdigits, rfl, rfl⟩ := digits h
        exact ⟨_, .minus he hdigits, rfl⟩
      · obtain ⟨ds, hdigits, rfl, rfl⟩ := digits h
        exact ⟨_, .plus he hdigits, rfl⟩
      · obtain ⟨ds, hdigits, rfl, rfl⟩ := digits h
        exact ⟨_, .bare he hdigits, rfl⟩
    · obtain ⟨rfl, rfl⟩ := Prod.mk.inj (Except.ok.inj h)
      exact ⟨[], .absent, rfl⟩
  · obtain ⟨rfl, rfl⟩ := Prod.mk.inj (Except.ok.inj h)
    exact ⟨[], .absent, rfl⟩

theorem readExponent_of_isExponent (atEnd : Cause) {t : List Char} {power : ℤ}
    (h : IsExponent t power) (hrest : Apart rest) :
    ∃ exponent, readExponent atEnd (t ++ rest) = .ok (exponent, rest) ∧
      powerOf exponent = power := by
  cases h with
  | absent =>
    refine ⟨none, ?_, rfl⟩
    rw [List.nil_append]
    unfold readExponent
    split
    · rename_i c tail
      obtain ⟨-, -, he, hE⟩ := hrest c rfl
      rw [if_neg (by simp [he, hE])]
    · rfl
  | @bare e digits he hdigits =>
    refine ⟨some (false, digits), ?_, rfl⟩
    have hread : readDigits atEnd (digits ++ rest) = .ok (digits, rest) :=
      readDigits_eq_ok.2 ⟨hdigits, hrest.noDigit, rfl⟩
    obtain ⟨c, tail, rfl, hc⟩ := hdigits.exists_head
    rw [List.cons_append, readExponent, if_pos he, hread]
    · rfl
    · intro after heq
      obtain ⟨rfl, -⟩ := List.cons.inj heq
      exact absurd hc (by decide)
    · intro after heq
      obtain ⟨rfl, -⟩ := List.cons.inj heq
      exact absurd hc (by decide)
  | @plus e digits he hdigits =>
    refine ⟨some (false, digits), ?_, rfl⟩
    rw [List.cons_append, List.cons_append, readExponent, if_pos he,
      readDigits_eq_ok.2 ⟨hdigits, hrest.noDigit, rfl⟩]
    rfl
  | @minus e digits he hdigits =>
    refine ⟨some (true, digits), ?_, rfl⟩
    rw [List.cons_append, List.cons_append, readExponent, if_pos he,
      readDigits_eq_ok.2 ⟨hdigits, hrest.noDigit, rfl⟩]
    rfl

/-! ### Whole numbers -/

theorem readUnsigned_eq_ok {negative : Bool} {n : Number}
    (h : readUnsigned atEnd negative s = .ok (n, rest)) :
    n.negative = negative ∧ ∃ t, IsUnsigned t n.size ∧ s = t ++ rest := by
  unfold readUnsigned at h
  cases hw : readWhole atEnd s with
  | error fault => simp [hw, bind, Except.bind] at h
  | ok p =>
    obtain ⟨whole, s₁⟩ := p
    cases hf : readFraction atEnd s₁ with
    | error fault => simp [hw, hf, bind, Except.bind] at h
    | ok p =>
      obtain ⟨fraction, s₂⟩ := p
      cases he : readExponent atEnd s₂ with
      | error fault => simp [hw, hf, he, bind, Except.bind] at h
      | ok p =>
        obtain ⟨exponent, s₃⟩ := p
        simp only [hw, hf, he, bind, Except.bind, pure, Except.pure, Except.ok.injEq,
          Prod.mk.injEq] at h
        obtain ⟨rfl, rfl⟩ := h
        obtain ⟨hwhole, -, rfl⟩ := readWhole_eq_ok.1 hw
        obtain ⟨f, hfraction, rfl⟩ := isFraction_of_readFraction hf
        obtain ⟨e, hexponent, rfl⟩ := isExponent_of_readExponent he
        exact ⟨rfl, _, .mk hwhole hfraction hexponent, by simp⟩

theorem readUnsigned_of_isUnsigned (atEnd : Cause) (negative : Bool) {t : List Char} {size : ℚ}
    (h : IsUnsigned t size) (hrest : Apart rest) :
    ∃ n, readUnsigned atEnd negative (t ++ rest) = .ok (n, rest) ∧ n.negative = negative ∧
      n.size = size := by
  obtain ⟨hwhole, hfraction, hexponent⟩ := h
  obtain ⟨hdigit, hpoint⟩ := hexponent.stops hrest
  obtain ⟨exponent, hreadE, rfl⟩ := readExponent_of_isExponent atEnd hexponent hrest
  obtain ⟨fraction, hreadF, rfl⟩ := readFraction_of_isFraction atEnd hfraction hdigit hpoint
  refine ⟨⟨negative, _, fraction, exponent⟩, ?_, rfl, rfl⟩
  rw [List.append_assoc, List.append_assoc, readUnsigned,
    readWhole_eq_ok.2 ⟨hwhole, hfraction.noDigit hdigit, rfl⟩]
  simp only [bind, Except.bind, hreadF, hreadE]
  rfl

theorem isNumber_of_read {n : Number} (h : read atEnd s = .ok (n, rest)) :
    ∃ t, IsNumber t n.amount ∧ s = t ++ rest := by
  unfold read at h
  split at h
  · obtain ⟨hn, t, ht, rfl⟩ := readUnsigned_eq_ok h
    rw [amount, if_pos hn]
    exact ⟨_, .negative ht, rfl⟩
  · obtain ⟨hn, t, ht, rfl⟩ := readUnsigned_eq_ok h
    rw [amount, if_neg (by simp [hn])]
    exact ⟨_, .positive ht, rfl⟩

theorem read_of_isNumber (atEnd : Cause) {t : List Char} {amount : ℚ} (h : IsNumber t amount)
    (hrest : Apart rest) :
    ∃ n, read atEnd (t ++ rest) = .ok (n, rest) ∧ n.amount = amount := by
  cases h with
  | @positive s size hsize =>
    obtain ⟨n, hread, hnegative, rfl⟩ :=
      readUnsigned_of_isUnsigned atEnd false hsize hrest
    refine ⟨n, ?_, by rw [Number.amount, if_neg (by simp [hnegative])]⟩
    unfold read
    split
    · rename_i tail heq
      obtain ⟨c, t, rfl, hc⟩ := hsize.exists_head
      obtain ⟨rfl, -⟩ := List.cons.inj heq
      exact absurd hc (by decide)
    · exact hread
  | @negative s size hsize =>
    obtain ⟨n, hread, hnegative, rfl⟩ :=
      readUnsigned_of_isUnsigned atEnd true hsize hrest
    exact ⟨n, hread, by rw [Number.amount, if_pos hnegative]⟩

end Number

/-- A number has one amount. -/
theorem IsNumber.unique {s : List Char} {x y : ℚ} (h : IsNumber s x) (h' : IsNumber s y) :
    x = y := by
  have hnil : Apart [] := fun c hc => absurd hc (by simp)
  obtain ⟨n, hn, rfl⟩ := Number.read_of_isNumber .invalidNumber h hnil
  obtain ⟨m, hm, rfl⟩ := Number.read_of_isNumber .invalidNumber h' hnil
  rw [hn] at hm
  rw [(Prod.mk.inj (Except.ok.inj hm)).1]

/-! ### Numbers that are written -/

theorem head?_toDigits {n : ℕ} (h : (Nat.toDigits 10 n).head? = some '0') : n = 0 := by
  induction n using Nat.strong_induction_on with
  | _ n ih =>
    rw [Nat.toDigits_eq_if (by decide)] at h
    split_ifs at h with hn
    · interval_cases n <;> revert h <;> decide
    · rw [List.head?_append_of_ne_nil _ Nat.toDigits_ne_nil] at h
      have := ih (n / 10) (by omega) h
      omega

theorem isWhole_toDigits (n : ℕ) : IsWhole (Nat.toDigits 10 n) where
  nonempty := Nat.toDigits_ne_nil
  digits _ hc := Nat.isDigit_of_mem_toDigits (by decide) (by decide) hc
  lone_zero h := by rw [head?_toDigits h]; rfl

theorem isNumber_ofNat (n : ℕ) : IsNumber (Number.ofNat n).write n := by
  have hnumeral : numeral (Nat.toDigits 10 n) = n := Nat.ofDigitChars_ten_toDigits
  have h := IsNumber.positive (.mk (isWhole_toDigits n) .absent .absent)
  simpa [hnumeral, Number.write, Number.ofNat] using h

end ImportScan.Json
