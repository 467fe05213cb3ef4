import ImportScan.Text.ModuleName

/-!
References to modules in source text: `require(`, `from ` or `import `, a quote, a module name, a
quote. The search is lexical, so a reference inside a comment or a string counts too. It goes from
left to right and goes on after each reference found; `occurrences` is the same search started
afresh at every position.
-/

namespace ImportScan.Reference

/-- The words that introduce a reference, each with the character that must follow it. -/
def keywords : List (List Char) := ["require(".toList, "from ".toList, "import ".toList]

/-- Both quotes are accepted on either side of a name. -/
def isQuote (c : Char) : Bool := c == '\x22' || c == '\x27'

/-- The rest of `s` after `word`, when `s` starts with it. -/
def after? : List Char → List Char → Option (List Char)
  | [], s => some s
  | _ :: _, [] => none
  | w :: word, c :: s => if w = c then after? word s else none

/-- A quoted module name at the head of the text, and the text after its closing quote. -/
def quotedName? : List Char → Option (List Char × List Char)
  | q :: c :: s =>
    if isQuote q && ModuleName.isStart c then
      match s.dropWhile ModuleName.isPart with
      | q' :: rest => if isQuote q' then some (c :: s.takeWhile ModuleName.isPart, rest) else none
      | [] => none
    else none
  | _ => none

/-- The name in the reference at the head of the text, and the text after that reference. -/
def read? (s : List Char) : Option (List Char × List Char) :=
  (keywords.findSome? (after? · s)).bind quotedName?

theorem length_after? {word s rest : List Char} (h : after? word s = some rest) :
    rest.length ≤ s.length := by
  induction word generalizing s with
  | nil => simp_all [after?]
  | cons w word ih =>
    cases s with
    | nil => simp [after?] at h
    | cons c s =>
      simp only [after?] at h
      split at h
      · have := ih h; simp; omega
      · simp at h

theorem length_quotedName? {s name rest : List Char} (h : quotedName? s = some (name, rest)) :
    rest.length < s.length := by
  match s with
  | [] => simp [quotedName?] at h
  | [_] => simp [quotedName?] at h
  | q :: c :: s =>
    have hs := (List.dropWhile_sublist (l := s) ModuleName.isPart).length_le
    simp only [quotedName?] at h
    split at h
    · split at h
      · rename_i q' tail hd
        split at h
        · rw [hd] at hs
          simp only [Option.some.injEq, Prod.mk.injEq] at h
          simp only [List.length_cons] at hs ⊢
          rw [← h.2]; omega
        · simp at h
      · simp at h
    · simp at h

/-- Reading a reference uses up at least one character. -/
theorem length_read? {s name rest : List Char} (h : read? s = some (name, rest)) :
    rest.length < s.length := by
  obtain ⟨t, ht, hq⟩ := Option.bind_eq_some_iff.1 h
  obtain ⟨word, _, hw⟩ := List.exists_of_findSome?_eq_some ht
  exact Nat.lt_of_lt_of_le (length_quotedName? hq) (length_after? hw)

/-- The names of all references met from left to right, in text order, repetitions kept. -/
def names : List Char → List (List Char)
  | [] => []
  | c :: s =>
    match _h : read? (c :: s) with
    | some (name, rest) => name :: names rest
    | none => names s
termination_by s => s.length
decreasing_by
  · exact length_read? ‹_›
  · simp

/-- The names of the references that start at each position of the text, one position at a time. -/
def occurrences : List Char → List (List Char)
  | [] => []
  | c :: s =>
    match read? (c :: s) with
    | some (name, _) => name :: occurrences s
    | none => occurrences s

end ImportScan.Reference

namespace ImportScan

/-- Every module name referred to in `source`, in text order, repetitions kept. -/
def moduleNames (source : String) : List String :=
  (Reference.names source.toList).map String.ofList

end ImportScan
