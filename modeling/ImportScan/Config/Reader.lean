import ImportScan.Config.Draft
import ImportScan.Json.NumberValue
import ImportScan.Json.Skip

/-!
Reading a configuration from JSON text: an object with the fields as members, or a list of their
values in order. Each field is a list of strings. Other members are passed over. Reading stops at
the first fault; a value of the wrong type is read first, so that a fault inside it comes before.
-/

namespace ImportScan.Config.Reader

open Json

/-- The fault of a value that is not what is wanted, or the fault in that value. -/
def wrongType (wanted : String) (s : List Char) : Fault :=
  match s with
  | [] => .before .endInValue []
  | c :: rest =>
    let after (found : Found) : Except Fault (List Char) → Fault
      | .ok rest => .before (.wrongType found wanted) rest
      | .error fault => fault
    if c = '[' then after .sequence (.ok s)
    else if c = '\x7b' then after .map (.ok s)
    else if c = 'n' then after .null (readWord "ull".toList rest)
    else if c = 't' then after (.boolean true) (readWord "rue".toList rest)
    else if c = 'f' then after (.boolean false) (readWord "alse".toList rest)
    else if c = '\x22' then
      match StringLiteral.read rest with
      | .ok (text, rest) => after (.string (String.ofList text)) (.ok rest)
      | .error fault => fault
    else if c = '-' ∨ c.isDigit then
      match Number.read .endInValue s with
      | .error fault => fault
      | .ok (number, rest) =>
        match number.value with
        | .ok found => after found (.ok rest)
        | .error unseen => ⟨.numberOutOfRange, byteLength rest + unseen⟩
    else .seeing .expectedValue s

/-- What comes next inside a list or an object: its end, or an element or key. -/
inductive Next where
  | last (rest : List Char)
  | item (s : List Char)

/-- The next element of a list, or the text after its end. -/
def nextElement (first : Bool) (s : List Char) : Except Fault Next :=
  match skipBlank s with
  | [] => .error (.before .endInList [])
  | c :: rest =>
    if c = ']' then .ok (.last rest)
    else if first then .ok (.item (c :: rest))
    else if c = ',' then
      match skipBlank rest with
      | [] => .error (.before .endInValue [])
      | c :: rest =>
        if c = ']' then .error (.seeing .trailingComma (c :: rest)) else .ok (.item (c :: rest))
    else .error (.seeing .expectedListEnd (c :: rest))

/-- The next key of an object, from behind its quote, or the text after the object's end. -/
def nextKey (first : Bool) (s : List Char) : Except Fault Next :=
  match skipBlank s with
  | [] => .error (.before .endInObject [])
  | c :: rest =>
    if c = '\x7d' then .ok (.last rest)
    else if first then
      if c = '\x22' then .ok (.item rest) else .error (.seeing .keyNotString (c :: rest))
    else if c = ',' then
      match skipBlank rest with
      | [] => .error (.before .endInValue [])
      | c :: rest =>
        if c = '\x22' then .ok (.item rest)
        else if c = '\x7d' then .error (.seeing .trailingComma (c :: rest))
        else .error (.seeing .keyNotString (c :: rest))
    else .error (.seeing .expectedObjectEnd (c :: rest))

/-- A string, called `wanted` where it is missing. -/
def readText (wanted : String) (s : List Char) : Except Fault (String × List Char) :=
  match s with
  | '\x22' :: rest => (StringLiteral.read rest).map fun (text, rest) => (String.ofList text, rest)
  | s => .error (wrongType wanted s)

theorem length_nextElement {first : Bool} {s : List Char} {next : Next}
    (h : nextElement first s = .ok next) :
    match next with
    | .last rest => rest.length < s.length
    | .item rest => rest.length ≤ s.length := by
  have hb := length_skipBlank s
  unfold nextElement at h
  split at h
  · simp at h
  · rename_i c tail hs
    have h1 := length_of_skipBlank hs
    rw [hs] at hb
    split at h
    · simp only [Except.ok.injEq] at h; subst h; exact h1
    · split at h
      · simp only [Except.ok.injEq] at h; subst h; exact hb
      · split at h
        · have h2 := length_skipBlank tail
          split at h
          · simp at h
          · rename_i hr
            rw [hr] at h2
            split at h
            · simp at h
            · simp only [Except.ok.injEq] at h; subst h; simp only; omega
        · simp at h

theorem length_nextKey {first : Bool} {s : List Char} {next : Next}
    (h : nextKey first s = .ok next) :
    match next with
    | .last rest => rest.length < s.length
    | .item rest => rest.length < s.length := by
  unfold nextKey at h
  split at h
  · simp at h
  · rename_i c tail hs
    have h1 := length_of_skipBlank hs
    split at h
    · simp only [Except.ok.injEq] at h; subst h; exact h1
    · split at h
      · split at h
        · simp only [Except.ok.injEq] at h; subst h; exact h1
        · simp at h
      · split at h
        · split at h
          · simp at h
          · rename_i hr
            have h2 := length_of_skipBlank hr
            split at h
            · simp only [Except.ok.injEq] at h; subst h; simp only; omega
            · split at h <;> simp at h
        · simp at h

theorem length_readText {wanted : String} {s rest : List Char} {text : String}
    (h : readText wanted s = .ok (text, rest)) : rest.length < s.length := by
  unfold readText at h
  split at h
  · rename_i tail
    cases hr : StringLiteral.read tail with
    | error _ => simp [hr, Except.map] at h
    | ok p =>
      obtain ⟨_, _⟩ := p
      have := StringLiteral.length_read hr
      simp only [hr, Except.map, Except.ok.injEq, Prod.mk.injEq] at h
      simp only [List.length_cons, ← h.2]; omega
  · simp at h

/-- The strings of a list from one element on, and the text after the list. -/
def readTexts (wanted : String) (first : Bool) (s : List Char) :
    Except Fault (List String × List Char) :=
  match _hn : nextElement first s with
  | .error fault => .error fault
  | .ok (.last rest) => .ok ([], rest)
  | .ok (.item t) =>
    match _ht : readText wanted t with
    | .error fault => .error fault
    | .ok (text, rest) =>
      (readTexts wanted false rest).map fun (texts, rest) => (text :: texts, rest)
termination_by s.length
decreasing_by exact Nat.lt_of_lt_of_le (length_readText _ht) (length_nextElement _hn)

/-- The value of a field and the text after it. -/
def readField (field : Field) (s : List Char) : Except Fault (List String × List Char) :=
  match skipBlank s with
  | '[' :: rest => readTexts field.element true rest
  | s => .error (wrongType "a sequence" s)

/-- The fault of a field that was there before. It is noticed after its key, or after the end of
the object where the key is the last thing in it. -/
def duplicate (field : Field) (s : List Char) : Fault :=
  match skipBlank s with
  | '\x7d' :: rest => .before (.duplicateField field.key) rest
  | s => .before (.duplicateField field.key) s

/-- One member of the object, from behind its key's quote. -/
def readMember (d : Draft) (s : List Char) : Except Fault (Draft × List Char) :=
  match StringLiteral.read s with
  | .error fault => .error fault
  | .ok (key, rest) =>
    match Field.ofKey? (String.ofList key) with
    | none =>
      match skipColon rest with
      | .error fault => .error fault
      | .ok rest => (skipValue [] rest).map fun rest => (d, rest)
    | some field =>
      if (d.get? field).isSome then .error (duplicate field rest)
      else
        match skipColon rest with
        | .error fault => .error fault
        | .ok rest => (readField field rest).map fun (value, rest) => (d.set field value, rest)

theorem length_readTexts {wanted : String} {first : Bool} {s rest : List Char}
    {texts : List String} (h : readTexts wanted first s = .ok (texts, rest)) :
    rest.length < s.length := by
  fun_induction readTexts wanted first s generalizing texts rest with
  | case1 => simp at h
  | case2 first s after hn =>
    simp only [Except.ok.injEq, Prod.mk.injEq] at h
    exact h.2 ▸ length_nextElement hn
  | case3 => simp at h
  | case4 first s t hn text after ht ih =>
    have h1 := length_nextElement hn
    have h2 := length_readText ht
    cases hr : readTexts wanted false after with
    | error _ => simp [hr, Except.map] at h
    | ok p =>
      obtain ⟨_, _⟩ := p
      have h3 := ih hr
      simp only [hr, Except.map, Except.ok.injEq, Prod.mk.injEq] at h
      simp only at h1
      rw [← h.2]; omega

theorem length_readField {field : Field} {s rest : List Char} {value : List String}
    (h : readField field s = .ok (value, rest)) : rest.length < s.length := by
  unfold readField at h
  split at h
  · rename_i hs
    exact Nat.lt_trans (length_readTexts h) (length_of_skipBlank hs)
  · simp at h

theorem length_readMember {d d' : Draft} {s rest : List Char}
    (h : readMember d s = .ok (d', rest)) : rest.length < s.length := by
  unfold readMember at h
  split at h
  · simp at h
  · rename_i key tail hk
    have h1 := StringLiteral.length_read hk
    split at h
    · split at h
      · simp at h
      · rename_i after hc
        have h2 := length_skipColon hc
        cases hv : skipValue [] after with
        | error _ => simp [hv, Except.map] at h
        | ok r =>
          have h3 := length_skipValue hv
          simp only [hv, Except.map, Except.ok.injEq, Prod.mk.injEq] at h
          rw [← h.2]; omega
    · rename_i field _
      split at h
      · simp at h
      · split at h
        · simp at h
        · rename_i after hc
          have h2 := length_skipColon hc
          cases hv : readField field after with
          | error _ => simp [hv, Except.map] at h
          | ok p =>
            obtain ⟨_, _⟩ := p
            have h3 := length_readField hv
            simp only [hv, Except.map, Except.ok.injEq, Prod.mk.injEq] at h
            rw [← h.2]; omega

/-- The members of the object from one key on, and the text after the object. -/
def readMembers (d : Draft) (first : Bool) (s : List Char) : Except Fault (Draft × List Char) :=
  match _hn : nextKey first s with
  | .error fault => .error fault
  | .ok (.last rest) => .ok (d, rest)
  | .ok (.item t) =>
    match _hm : readMember d t with
    | .error fault => .error fault
    | .ok (d, rest) => readMembers d false rest
termination_by s.length
decreasing_by exact Nat.lt_trans (length_readMember _hm) (length_nextKey _hn)

/-- The end of a list whose elements have all been read. -/
def readListEnd (s : List Char) : Except Fault (List Char) :=
  match skipBlank s with
  | [] => .error (.before .endInList [])
  | ']' :: rest => .ok rest
  | ',' :: rest =>
    match skipBlank rest with
    | ']' :: rest => .error (.seeing .trailingComma (']' :: rest))
    | s => .error (.seeing .trailingCharacters s)
  | s => .error (.seeing .trailingCharacters s)

/-- The values of the given fields in order, as far as the list goes, and the text after it. -/
def readSequence (d : Draft) (first : Bool) (fields : List Field) (s : List Char) :
    Except Fault (Draft × List Char) :=
  match fields with
  | [] => (readListEnd s).map fun rest => (d, rest)
  | field :: fields =>
    match nextElement first s with
    | .error fault => .error fault
    | .ok (.last rest) => .ok (d, rest)
    | .ok (.item t) =>
      match readField field t with
      | .error fault => .error fault
      | .ok (value, rest) => readSequence (d.set field value) false fields rest

end ImportScan.Config.Reader

namespace ImportScan.Config

open Json

/-- The configuration that a whole text holds. -/
def readJson (s : List Char) : Except Fault Config :=
  let whole := match skipBlank s with
    | '[' :: rest => Reader.readSequence {} true Field.all rest
    | '\x7b' :: rest => Reader.readMembers {} true rest
    | s => .error (Reader.wrongType "struct Config" s)
  match whole with
  | .error fault => .error fault
  | .ok (d, rest) =>
    match skipBlank rest with
    | [] => .ok d.config
    | rest => .error (.seeing .trailingCharacters rest)

end ImportScan.Config
