import ImportScan.Json.Fault

/-!
Strings in JSON text. `read` decodes a string from behind its opening quote; `skip` only finds its
end and does not look at whether surrogates pair up. `write` is the form in which strings are
written: characters below the space are escaped, with a letter where there is one.
-/

namespace ImportScan.Json.StringLiteral

/-- The value of a hexadecimal digit. -/
def hexDigit? (c : Char) : Option Nat :=
  if c.isDigit then some (c.toNat - '0'.toNat)
  else if 'a' ≤ c ∧ c ≤ 'f' then some (c.toNat - 'a'.toNat + 10)
  else if 'A' ≤ c ∧ c ≤ 'F' then some (c.toNat - 'A'.toNat + 10)
  else none

/-- The fault of a hexadecimal escape that is not four digits: four bytes are taken at once. -/
def hexFault (s : List Char) : Fault :=
  if byteLength s < 4 then .before .endInString [] else ⟨.invalidEscape, byteLength s - 4⟩

/-- The number that four hexadecimal digits stand for. -/
def readHex (s : List Char) : Except Fault (Nat × List Char) :=
  match s with
  | a :: b :: c :: d :: rest =>
    match hexDigit? a, hexDigit? b, hexDigit? c, hexDigit? d with
    | some a, some b, some c, some d => .ok (((a * 16 + b) * 16 + c) * 16 + d, rest)
    | _, _, _, _ => .error (hexFault s)
  | _ => .error (hexFault s)

/-- Numbers that only stand for a character as the first half of a pair. -/
def isHighSurrogate (n : Nat) : Bool := 0xd800 ≤ n && n < 0xdc00

/-- Numbers that only stand for a character as the second half of a pair. -/
def isLowSurrogate (n : Nat) : Bool := 0xdc00 ≤ n && n < 0xe000

/-- The second half of a pair of escapes whose first half is `high`. -/
def readPair (high : Nat) (s : List Char) : Except Fault (Char × List Char) :=
  match s with
  | [] => .error (.before .endInString [])
  | ['\\'] => .error (.before .endInString [])
  | '\\' :: 'u' :: rest =>
    match readHex rest with
    | .error fault => .error fault
    | .ok (low, rest) =>
      if isLowSurrogate low then
        .ok (Char.ofNat (0x10000 + (high - 0xd800) * 0x400 + (low - 0xdc00)), rest)
      else .error (.before .loneSurrogate rest)
  | '\\' :: rest => .error (.seeing .unfinishedPair rest)
  | s => .error (.seeing .unfinishedPair s)

/-- The character of an escape whose digits follow. -/
def readUnicode (s : List Char) : Except Fault (Char × List Char) :=
  match readHex s with
  | .error fault => .error fault
  | .ok (n, rest) =>
    if isLowSurrogate n then .error (.before .loneSurrogate rest)
    else if isHighSurrogate n then readPair n rest
    else .ok (Char.ofNat n, rest)

/-- The character that a single letter after a backslash stands for. -/
def shortEscape? : Char → Option Char
  | '\x22' => some '\x22'
  | '\\' => some '\\'
  | '/' => some '/'
  | 'b' => some '\x08'
  | 'f' => some '\x0c'
  | 'n' => some '\n'
  | 'r' => some '\r'
  | 't' => some '\t'
  | _ => none

/-- The character of an escape, from behind its backslash. -/
def readEscape (s : List Char) : Except Fault (Char × List Char) :=
  match s with
  | [] => .error (.before .endInString [])
  | c :: rest =>
    if c = 'u' then readUnicode rest
    else
      match shortEscape? c with
      | some d => .ok (d, rest)
      | none => .error (.seeing .invalidEscape s)

/-- The text after an escape, from behind its backslash. -/
def skipEscape (s : List Char) : Except Fault (List Char) :=
  match s with
  | [] => .error (.before .endInString [])
  | c :: rest =>
    if c = 'u' then (readHex rest).map Prod.snd
    else if (shortEscape? c).isSome then .ok rest
    else .error (.seeing .invalidEscape s)

/-- The two lower-case hexadecimal digits of a number below 256. -/
def twoHex (n : Nat) : List Char := [Nat.digitChar (n / 16), Nat.digitChar (n % 16)]

/-- How a character is written in a string. -/
def escape (c : Char) : List Char :=
  match c with
  | '\x22' => ['\\', '\x22']
  | '\\' => ['\\', '\\']
  | '\x08' => ['\\', 'b']
  | '\x0c' => ['\\', 'f']
  | '\n' => ['\\', 'n']
  | '\r' => ['\\', 'r']
  | '\t' => ['\\', 't']
  | c => if c < ' ' then ['\\', 'u', '0', '0'] ++ twoHex c.toNat else [c]

/-- A string with its quotes. -/
def write (text : List Char) : List Char := '\x22' :: text.flatMap escape ++ ['\x22']

theorem length_readHex {s rest : List Char} {n : Nat} (h : readHex s = .ok (n, rest)) :
    rest.length < s.length := by
  unfold readHex at h
  split at h
  · split at h
    · simp only [Except.ok.injEq, Prod.mk.injEq] at h
      simp only [List.length_cons, ← h.2]; omega
    · simp at h
  · simp at h

theorem length_readPair {high : Nat} {s rest : List Char} {c : Char}
    (h : readPair high s = .ok (c, rest)) : rest.length < s.length := by
  unfold readPair at h
  split at h
  · simp at h
  · simp at h
  · split at h
    · simp at h
    · rename_i hx
      have := length_readHex hx
      split at h
      · simp only [Except.ok.injEq, Prod.mk.injEq] at h
        simp only [List.length_cons, ← h.2]; omega
      · simp at h
  · simp at h
  · simp at h

theorem length_readEscape {s rest : List Char} {c : Char} (h : readEscape s = .ok (c, rest)) :
    rest.length < s.length := by
  unfold readEscape at h
  split at h
  · simp at h
  · split at h
    · unfold readUnicode at h
      split at h
      · simp at h
      · rename_i hx
        have := length_readHex hx
        split at h
        · simp at h
        · split at h
          · have := length_readPair h
            simp only [List.length_cons]; omega
          · simp only [Except.ok.injEq, Prod.mk.injEq] at h
            simp only [List.length_cons, ← h.2]; omega
    · split at h
      · simp only [Except.ok.injEq, Prod.mk.injEq] at h
        simp [← h.2]
      · simp at h

theorem length_skipEscape {s rest : List Char} (h : skipEscape s = .ok rest) :
    rest.length < s.length := by
  unfold skipEscape at h
  split at h
  · simp at h
  · rename_i c tail
    split at h
    · cases hx : readHex tail with
      | error _ => simp [hx, Except.map] at h
      | ok p =>
        obtain ⟨_, _⟩ := p
        have := length_readHex hx
        simp only [hx, Except.map, Except.ok.injEq] at h
        simp only [List.length_cons, ← h]; omega
    · split at h
      · simp_all
      · simp at h

/-- The characters of a string and the text after its closing quote. -/
def read (s : List Char) : Except Fault (List Char × List Char) :=
  match s with
  | [] => .error (.before .endInString [])
  | c :: rest =>
    if c = '\x22' then .ok ([], rest)
    else if c = '\\' then
      match _h : readEscape rest with
      | .error fault => .error fault
      | .ok (d, rest) => (read rest).map fun (text, rest) => (d :: text, rest)
    else if c < ' ' then .error (.seeing .controlCharacter s)
    else (read rest).map fun (text, rest) => (c :: text, rest)
termination_by s.length
decreasing_by
  · have := length_readEscape ‹_›
    simp only [List.length_cons]; omega
  · simp

/-- The text after the closing quote of a string. -/
def skip (s : List Char) : Except Fault (List Char) :=
  match s with
  | [] => .error (.before .endInString [])
  | c :: rest =>
    if c = '\x22' then .ok rest
    else if c = '\\' then
      match _h : skipEscape rest with
      | .error fault => .error fault
      | .ok rest => skip rest
    else if c < ' ' then .error (.before .controlCharacter s)
    else skip rest
termination_by s.length
decreasing_by
  · have := length_skipEscape ‹_›
    simp only [List.length_cons]; omega
  · simp

/-- Reading a string uses up at least its closing quote. -/
theorem length_read {s text rest : List Char} (h : read s = .ok (text, rest)) :
    rest.length < s.length := by
  fun_induction read s generalizing text rest with
  | case1 => simp at h
  | case2 => simp_all
  | case3 => simp at h
  | case4 tail d after he _ ih =>
    have := length_readEscape he
    cases hr : read after with
    | error _ => simp [hr, Except.map] at h
    | ok p =>
      obtain ⟨_, _⟩ := p
      have := ih hr
      simp only [hr, Except.map, Except.ok.injEq, Prod.mk.injEq] at h
      simp only [List.length_cons, ← h.2]; omega
  | case5 => simp at h
  | case6 c tail _ _ _ ih =>
    cases hr : read tail with
    | error _ => simp [hr, Except.map] at h
    | ok p =>
      obtain ⟨_, _⟩ := p
      have := ih hr
      simp only [hr, Except.map, Except.ok.injEq, Prod.mk.injEq] at h
      simp only [List.length_cons, ← h.2]; omega

/-- Skipping a string uses up at least its closing quote. -/
theorem length_skip {s rest : List Char} (h : skip s = .ok rest) : rest.length < s.length := by
  fun_induction skip s with
  | case1 => simp at h
  | case2 => simp_all
  | case3 => simp at h
  | case4 tail after he _ ih =>
    have := length_skipEscape he
    have := ih h
    simp only [List.length_cons]; omega
  | case5 => simp at h
  | case6 c tail _ _ _ ih =>
    have := ih h
    simp only [List.length_cons]; omega

end ImportScan.Json.StringLiteral
