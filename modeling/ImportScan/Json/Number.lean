import ImportScan.Json.Fault

/-!
Numbers in JSON text. A number is read as its digits; what double or integer they stand for is
worked out afterwards.
-/

namespace ImportScan.Json

/-- The parts of a number: its sign, the digits before and after the point, and the sign and digits
of its exponent. -/
structure Number where
  negative : Bool
  whole : List Char
  fraction : Option (List Char)
  exponent : Option (Bool × List Char)
  deriving DecidableEq, Repr

namespace Number

/-- A natural number. -/
def ofNat (n : Nat) : Number := ⟨false, Nat.toDigits 10 n, none, none⟩

/-- The text of a number. -/
def write (n : Number) : List Char :=
  let sign (negative : Bool) := if negative then ['-'] else []
  sign n.negative ++ n.whole ++ (n.fraction.map ('.' :: ·)).getD [] ++
    (n.exponent.map fun (negative, digits) => 'e' :: sign negative ++ digits).getD []

/-- Digits at the front of a text, at least one. Where the text ends instead, the cause is `atEnd`;
another character is no digit. -/
def readDigits (atEnd : Cause) (s : List Char) : Except Fault (List Char × List Char) :=
  match s with
  | [] => .error (.before atEnd [])
  | c :: _ =>
    if c.isDigit then .ok (s.takeWhile Char.isDigit, s.dropWhile Char.isDigit)
    else .error (.seeing .invalidNumber s)

/-- The digits before the point: a zero stands alone. -/
def readWhole (atEnd : Cause) (s : List Char) : Except Fault (List Char × List Char) :=
  match s with
  | '0' :: c :: rest =>
    if c.isDigit then .error (.seeing .invalidNumber (c :: rest)) else .ok (['0'], c :: rest)
  | s => readDigits atEnd s

/-- The digits after a point, if one follows. -/
def readFraction (atEnd : Cause) (s : List Char) : Except Fault (Option (List Char) × List Char) :=
  match s with
  | '.' :: rest => (readDigits atEnd rest).map fun (digits, rest) => (some digits, rest)
  | s => .ok (none, s)

/-- An exponent, if one follows: its sign and its digits. -/
def readExponent (atEnd : Cause) (s : List Char) :
    Except Fault (Option (Bool × List Char) × List Char) :=
  match s with
  | c :: rest =>
    if c = 'e' ∨ c = 'E' then
      match rest with
      | '-' :: rest => (readDigits atEnd rest).map fun (digits, s) => (some (true, digits), s)
      | '+' :: rest => (readDigits atEnd rest).map fun (digits, s) => (some (false, digits), s)
      | rest => (readDigits atEnd rest).map fun (digits, s) => (some (false, digits), s)
    else .ok (none, s)
  | [] => .ok (none, [])

/-- A number after its sign. -/
def readUnsigned (atEnd : Cause) (negative : Bool) (s : List Char) :
    Except Fault (Number × List Char) := do
  let (whole, s) ← readWhole atEnd s
  let (fraction, s) ← readFraction atEnd s
  let (exponent, s) ← readExponent atEnd s
  return (⟨negative, whole, fraction, exponent⟩, s)

/-- The number at the front of a text. Where the text ends too early, the cause is `atEnd`. -/
def read (atEnd : Cause) (s : List Char) : Except Fault (Number × List Char) :=
  match s with
  | '-' :: rest => readUnsigned atEnd true rest
  | s => readUnsigned atEnd false s

theorem length_readDigits {atEnd : Cause} {s digits rest : List Char}
    (h : readDigits atEnd s = .ok (digits, rest)) : rest.length < s.length := by
  unfold readDigits at h
  split at h
  · simp at h
  · rename_i c tail
    split at h
    · rename_i hc
      simp only [Except.ok.injEq, Prod.mk.injEq] at h
      have := (List.dropWhile_sublist (l := tail) Char.isDigit).length_le
      rw [← h.2, List.dropWhile_cons_of_pos hc]
      simp only [List.length_cons]
      omega
    · simp at h

theorem length_readWhole {atEnd : Cause} {s digits rest : List Char}
    (h : readWhole atEnd s = .ok (digits, rest)) : rest.length < s.length := by
  unfold readWhole at h
  split at h
  · split at h
    · simp at h
    · simp only [Except.ok.injEq, Prod.mk.injEq] at h
      simp [← h.2]
  · exact length_readDigits h

theorem length_readFraction {atEnd : Cause} {s rest : List Char} {digits : Option (List Char)}
    (h : readFraction atEnd s = .ok (digits, rest)) : rest.length ≤ s.length := by
  unfold readFraction at h
  split at h
  · rename_i tail
    cases hd : readDigits atEnd tail with
    | error _ => simp [hd, Except.map] at h
    | ok p =>
      obtain ⟨_, _⟩ := p
      have := length_readDigits hd
      simp only [hd, Except.map, Except.ok.injEq, Prod.mk.injEq] at h
      simp only [List.length_cons, ← h.2]
      omega
  · simp_all

theorem length_readExponent {atEnd : Cause} {s rest : List Char} {e : Option (Bool × List Char)}
    (h : readExponent atEnd s = .ok (e, rest)) : rest.length ≤ s.length := by
  have step (sign : Bool) (tail : List Char)
      (hm : (readDigits atEnd tail).map (fun (d, r) => (some (sign, d), r)) = .ok (e, rest)) :
      rest.length ≤ tail.length := by
    cases hd : readDigits atEnd tail with
    | error _ => simp [hd, Except.map] at hm
    | ok p =>
      obtain ⟨_, _⟩ := p
      have := length_readDigits hd
      simp only [hd, Except.map, Except.ok.injEq, Prod.mk.injEq] at hm
      rw [← hm.2]; omega
  unfold readExponent at h
  split at h
  · split at h
    · split at h <;> have := step _ _ h <;> simp only [List.length_cons] at * <;> omega
    · simp_all
  · simp_all

/-- Reading a number uses up at least one character. -/
theorem length_read {atEnd : Cause} {s rest : List Char} {n : Number}
    (h : read atEnd s = .ok (n, rest)) : rest.length < s.length := by
  have step (negative : Bool) (s : List Char)
      (h : readUnsigned atEnd negative s = .ok (n, rest)) : rest.length < s.length := by
    unfold readUnsigned at h
    cases hw : readWhole atEnd s with
    | error _ => simp [hw, bind, Except.bind] at h
    | ok w =>
      obtain ⟨_, s1⟩ := w
      cases hf : readFraction atEnd s1 with
      | error _ => simp [hw, hf, bind, Except.bind] at h
      | ok f =>
        obtain ⟨_, s2⟩ := f
        cases he : readExponent atEnd s2 with
        | error _ => simp [hw, hf, he, bind, Except.bind] at h
        | ok e =>
          obtain ⟨_, _⟩ := e
          simp only [hw, hf, he, bind, Except.bind, pure, Except.pure, Except.ok.injEq,
            Prod.mk.injEq] at h
          have h1 := length_readWhole hw
          have h2 := length_readFraction hf
          have h3 := length_readExponent he
          rw [← h.2]; omega
  unfold read at h
  split at h
  · have := step _ _ h
    simp only [List.length_cons]; omega
  · exact step _ _ h

end Number

end ImportScan.Json
