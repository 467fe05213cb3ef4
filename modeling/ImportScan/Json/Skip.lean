import ImportScan.Json.Blank
import ImportScan.Json.Number
import ImportScan.Json.StringLiteral

/-!
Passing over a value of any kind. The lists and objects that are open are kept on a stack, so the
depth of nesting does not matter; the sizes of numbers and the pairing of surrogates do not either.
-/

namespace ImportScan.Json

/-- What is open around a value. -/
inductive Frame where
  | list
  | object
  deriving DecidableEq, Repr

/-- The text after a word that is expected. -/
def readWord : List Char → List Char → Except Fault (List Char)
  | [], s => .ok s
  | _ :: _, [] => .error (.before .endInValue [])
  | w :: word, c :: s =>
    if w = c then readWord word s else .error (.seeing .expectedIdent (c :: s))

/-- The text after the value at the front, which is neither a list nor an object. -/
def skipScalar (s : List Char) : Except Fault (List Char) :=
  match s with
  | [] => .error (.before .endInValue [])
  | c :: rest =>
    if c = '\x22' then StringLiteral.skip rest
    else if c = 'n' then readWord "ull".toList rest
    else if c = 't' then readWord "rue".toList rest
    else if c = 'f' then readWord "alse".toList rest
    else if c = '-' ∨ c.isDigit then (Number.read .invalidNumber s).map Prod.snd
    else .error (.seeing .expectedValue s)

/-- The text after the colon that follows a key. -/
def skipColon (s : List Char) : Except Fault (List Char) :=
  match skipBlank s with
  | [] => .error (.before .endInObject [])
  | c :: rest => if c = ':' then .ok rest else .error (.seeing .expectedColon (c :: rest))

/-- The text after a key and its colon. -/
def skipKey (s : List Char) : Except Fault (List Char) :=
  match skipBlank s with
  | [] => .error (.before .endInObject [])
  | c :: rest =>
    if c = '\x22' then
      match StringLiteral.skip rest with
      | .error fault => .error fault
      | .ok rest => skipColon rest
    else .error (.seeing .keyNotString (c :: rest))

theorem length_readWord {word s rest : List Char} (h : readWord word s = .ok rest) :
    rest.length ≤ s.length := by
  fun_induction readWord word s with
  | case1 => simp_all
  | case2 => simp at h
  | case3 _ _ _ ih => have := ih h; simp only [List.length_cons]; omega
  | case4 => simp at h

theorem length_skipScalar {s rest : List Char} (h : skipScalar s = .ok rest) :
    rest.length < s.length := by
  unfold skipScalar at h
  split at h
  · simp at h
  · rename_i c tail
    simp only [List.length_cons]
    split at h
    · have := StringLiteral.length_skip h; omega
    · split at h
      · have := length_readWord h; omega
      · split at h
        · have := length_readWord h; omega
        · split at h
          · have := length_readWord h; omega
          · split at h
            · cases hn : Number.read .invalidNumber (c :: tail) with
              | error _ => simp [hn, Except.map] at h
              | ok p =>
                obtain ⟨_, _⟩ := p
                have := Number.length_read hn
                simp only [hn, Except.map, Except.ok.injEq] at h
                simp only [List.length_cons] at this
                rw [← h]; omega
            · simp at h

theorem length_skipColon {s rest : List Char} (h : skipColon s = .ok rest) :
    rest.length < s.length := by
  unfold skipColon at h
  split at h
  · simp at h
  · rename_i hs
    have := length_of_skipBlank hs
    split at h
    · simp only [Except.ok.injEq] at h; rw [← h]; exact this
    · simp at h

theorem length_skipKey {s rest : List Char} (h : skipKey s = .ok rest) :
    rest.length < s.length := by
  unfold skipKey at h
  split at h
  · simp at h
  · rename_i hs
    have h1 := length_of_skipBlank hs
    split at h
    · split at h
      · simp at h
      · rename_i hk
        have h2 := StringLiteral.length_skip hk
        have h3 := length_skipColon h
        omega
    · simp at h

mutual

/-- The text after the value that comes next, and after all that is open around it. -/
def skipValue (stack : List Frame) (s : List Char) : Except Fault (List Char) :=
  match _hs : skipBlank s with
  | [] => .error (.before .endInValue [])
  | '[' :: rest =>
    match _hr : skipBlank rest with
    | [] => .error (.before .endInList [])
    | ']' :: rest => skipRest stack rest
    | _ => skipValue (.list :: stack) rest
  | '\x7b' :: rest =>
    match _hr : skipBlank rest with
    | '\x7d' :: rest => skipRest stack rest
    | _ =>
      match _hk : skipKey rest with
      | .error fault => .error fault
      | .ok rest => skipValue (.object :: stack) rest
  | s =>
    match _hk : skipScalar s with
    | .error fault => .error fault
    | .ok rest => skipRest stack rest
termination_by s.length
decreasing_by
  · exact Nat.lt_trans (length_of_skipBlank _hr) (length_of_skipBlank _hs)
  · exact length_of_skipBlank _hs
  · exact Nat.lt_trans (length_of_skipBlank _hr) (length_of_skipBlank _hs)
  · exact Nat.lt_trans (length_skipKey _hk) (length_of_skipBlank _hs)
  · exact Nat.lt_of_lt_of_le (length_skipScalar _hk) (_hs ▸ length_skipBlank _)

/-- The text after all that is open, when a value has just ended. -/
def skipRest (stack : List Frame) (s : List Char) : Except Fault (List Char) :=
  match stack with
  | [] => .ok s
  | .list :: outer =>
    match _hs : skipBlank s with
    | [] => .error (.before .endInList [])
    | ',' :: rest => skipValue (.list :: outer) rest
    | ']' :: rest => skipRest outer rest
    | s => .error (.seeing .expectedListEnd s)
  | .object :: outer =>
    match _hs : skipBlank s with
    | [] => .error (.before .endInObject [])
    | ',' :: rest =>
      match _hk : skipKey rest with
      | .error fault => .error fault
      | .ok rest => skipValue (.object :: outer) rest
    | '\x7d' :: rest => skipRest outer rest
    | s => .error (.seeing .expectedObjectEnd s)
termination_by s.length
decreasing_by
  · exact length_of_skipBlank _hs
  · exact length_of_skipBlank _hs
  · exact Nat.lt_trans (length_skipKey _hk) (length_of_skipBlank _hs)
  · exact length_of_skipBlank _hs

end

/-- Skipping uses up a value at least, or nothing when no value is due. -/
theorem length_skip (n : Nat) : ∀ (stack : List Frame) (s rest : List Char), s.length ≤ n →
    (skipValue stack s = .ok rest → rest.length < s.length) ∧
      (skipRest stack s = .ok rest → rest.length ≤ s.length) := by
  induction n with
  | zero =>
    intro stack s rest hn
    obtain rfl : s = [] := List.eq_nil_of_length_eq_zero (by omega)
    refine ⟨fun h => ?_, fun h => ?_⟩
    · unfold skipValue at h
      simp [skipBlank] at h
    · unfold skipRest at h
      split at h <;> simp_all [skipBlank]
  | succ n ih =>
    intro stack s rest hn
    have value {stack t} (ht : t.length < s.length) (h : skipValue stack t = .ok rest) :
        rest.length < s.length := Nat.lt_trans ((ih _ _ _ (by omega)).1 h) ht
    have tail {stack t} (ht : t.length < s.length) (h : skipRest stack t = .ok rest) :
        rest.length < s.length := Nat.lt_of_le_of_lt ((ih _ _ _ (by omega)).2 h) ht
    refine ⟨fun h => ?_, fun h => ?_⟩
    · unfold skipValue at h
      split at h
      · simp at h
      · rename_i hs
        split at h
        · simp at h
        · rename_i hr
          exact tail (Nat.lt_trans (length_of_skipBlank hr) (length_of_skipBlank hs)) h
        · exact value (length_of_skipBlank hs) h
      · rename_i hs
        split at h
        · rename_i hr
          exact tail (Nat.lt_trans (length_of_skipBlank hr) (length_of_skipBlank hs)) h
        · split at h
          · simp at h
          · rename_i hk
            exact value (Nat.lt_trans (length_skipKey hk) (length_of_skipBlank hs)) h
      · split at h
        · simp at h
        · rename_i hk
          exact tail (Nat.lt_of_lt_of_le (length_skipScalar hk) (length_skipBlank s)) h
    · unfold skipRest at h
      split at h
      · simp_all
      · split at h
        · simp at h
        · rename_i hs
          exact Nat.le_of_lt (value (length_of_skipBlank hs) h)
        · rename_i hs
          exact Nat.le_of_lt (tail (length_of_skipBlank hs) h)
        · simp at h
      · split at h
        · simp at h
        · rename_i hs
          split at h
          · simp at h
          · rename_i hk
            exact Nat.le_of_lt
              (value (Nat.lt_trans (length_skipKey hk) (length_of_skipBlank hs)) h)
        · rename_i hs
          exact Nat.le_of_lt (tail (length_of_skipBlank hs) h)
        · simp at h

/-- Skipping one value uses up at least one character. -/
theorem length_skipValue {s rest : List Char} (h : skipValue [] s = .ok rest) :
    rest.length < s.length :=
  (length_skip s.length [] s rest (Nat.le_refl _)).1 h

end ImportScan.Json
