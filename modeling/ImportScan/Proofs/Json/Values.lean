import ImportScan.Json.Skip
import ImportScan.Proofs.Json.Numbers
import ImportScan.Proofs.Json.Strings

/-!
Values as they are passed over, against the grammar: `skipValue` takes exactly one value with blanks
in front of it, whatever is open around it. Since it is a function, where a value ends is
determined, and so is what a text stands for (`IsText.unique`).
-/

namespace ImportScan.Json

variable {s t rest : List Char} {stack : List Frame}

/-! ### Blanks -/

theorem isBlank_iff {c : Char} : isBlank c = true ↔ c ∈ [' ', '\t', '\n', '\r'] := by
  simp [isBlank, or_assoc]

theorem isBlank_nil : IsBlank [] := fun _ h => absurd h List.not_mem_nil

theorem IsBlank.append {b b' : List Char} (h : IsBlank b) (h' : IsBlank b') : IsBlank (b ++ b') :=
  fun c hc => (List.mem_append.1 hc).elim (h c) (h' c)

theorem IsBlank.reverse {b : List Char} (h : IsBlank b) : IsBlank b.reverse :=
  fun c hc => h c (List.mem_reverse.1 hc)

theorem skipBlank_append {b : List Char} (h : IsBlank b) : skipBlank (b ++ s) = skipBlank s :=
  List.dropWhile_append_of_pos fun c hc => isBlank_iff.2 (h c hc)

theorem skipBlank_cons {c : Char} (h : isBlank c = false) : skipBlank (c :: s) = c :: s :=
  List.dropWhile_cons_of_neg (by simp [h])

theorem exists_blank (s : List Char) : ∃ b, IsBlank b ∧ s = b ++ skipBlank s := by
  refine ⟨s.takeWhile isBlank, fun c hc => isBlank_iff.1 ?_, List.takeWhile_append_dropWhile.symm⟩
  exact List.all_eq_true.1 List.all_takeWhile c hc

theorem skipBlank_eq_nil : skipBlank s = [] ↔ IsBlank s := by
  constructor
  · intro h
    obtain ⟨b, hb, hs⟩ := exists_blank s
    rw [h, List.append_nil] at hs
    exact hs ▸ hb
  · intro h
    have := skipBlank_append (s := []) h
    rwa [List.append_nil] at this

theorem skipBlank_eq_cons {c : Char} :
    skipBlank s = c :: t ↔ isBlank c = false ∧ ∃ b, IsBlank b ∧ s = b ++ c :: t := by
  constructor
  · intro h
    obtain ⟨b, hb, hs⟩ := exists_blank s
    rw [h] at hs
    have hnot := List.head?_dropWhile_not isBlank s
    rw [show s.dropWhile isBlank = c :: t from h] at hnot
    exact ⟨hnot, b, hb, hs⟩
  · rintro ⟨hc, b, hb, rfl⟩
    rw [skipBlank_append hb, skipBlank_cons hc]

/-- Blanks in front of what does not start with one are determined. -/
theorem blank_append_cancel {b b' : List Char} (hb : IsBlank b) (hb' : IsBlank b')
    (hs : skipBlank s = s) (ht : skipBlank t = t) (h : b ++ s = b' ++ t) : s = t := by
  have hskip := congrArg skipBlank h
  rwa [skipBlank_append hb, skipBlank_append hb', hs, ht] at hskip

/-! ### Scalars -/

theorem readWord_eq_ok {word : List Char} : readWord word s = .ok rest ↔ s = word ++ rest := by
  fun_induction readWord word s with
  | case1 s => simp
  | case2 => simp
  | case3 w word s ih => simpa using ih
  | case4 w word c s hne => simp [Ne.symm hne]

/-- What the first character of a value tells: a sign and all digits tell the same. -/
def initial (c : Char) : Char := if c = '-' ∨ c.isDigit = true then '0' else c

/-- What the first character of a value of each kind tells. -/
def Data.initial : Data → Char
  | .null => 'n'
  | .boolean true => 't'
  | .boolean false => 'f'
  | .number _ => '0'
  | .string _ => '\x22'
  | .list _ => '['
  | .object _ => '\x7b'

/-- The characters that a value can start with. -/
def Data.Starts (d : Data) (c : Char) : Prop := Json.initial c = d.initial

theorem IsNumber.exists_head {amount : ℚ} (h : IsNumber s amount) :
    ∃ c t, s = c :: t ∧ (c = '-' ∨ c.isDigit = true) := by
  cases h with
  | positive hsize =>
    obtain ⟨c, t, rfl, hc⟩ := hsize.exists_head
    exact ⟨c, t, rfl, .inr hc⟩
  | negative hsize => exact ⟨_, _, rfl, .inl rfl⟩

theorem Spells.exists_head {d : Data} (h : Spells (.value d) s) :
    ∃ c t, s = c :: t ∧ d.Starts c := by
  cases h with
  | number hn =>
    obtain ⟨c, t, rfl, hc⟩ := hn.exists_head
    exact ⟨c, t, rfl, if_pos hc⟩
  | string hs =>
    obtain ⟨body, -, rfl⟩ := hs
    exact ⟨_, _, rfl, rfl⟩
  | null | true | false | emptyList _ | list _ | emptyObject _ | object _ => exact ⟨_, _, rfl, rfl⟩

theorem Data.initial_mem (d : Data) : d.initial ∈ ['n', 't', 'f', '0', '\x22', '[', '\x7b'] := by
  cases d with
  | boolean value => cases value <;> decide
  | null | number _ | string _ | list _ | object _ => simp [Data.initial]

/-- A value starts with none of the characters that stand between values. -/
theorem Data.Starts.ne {d : Data} {c : Char} (h : d.Starts c) :
    isBlank c = false ∧ c ≠ ']' ∧ c ≠ '\x7d' ∧ c ≠ ',' := by
  have hmem : Json.initial c ∈ ['n', 't', 'f', '0', '\x22', '[', '\x7b'] := h ▸ d.initial_mem
  refine ⟨Bool.eq_false_iff.2 fun hblank => ?_, ?_, ?_, ?_⟩
  · simp only [isBlank_iff, List.mem_cons, List.not_mem_nil, or_false] at hblank
    rcases hblank with rfl | rfl | rfl | rfl <;> exact absurd hmem (by decide)
  all_goals
    rintro rfl
    exact absurd hmem (by decide)

/-- The values that are neither lists nor objects. -/
def Data.IsScalar : Data → Prop
  | .list _ | .object _ => False
  | _ => True

theorem Data.Starts.ne_of_isScalar {d : Data} {c : Char} (h : d.Starts c) (hd : d.IsScalar) :
    c ≠ '[' ∧ c ≠ '\x7b' := by
  have hne : d.initial ≠ '[' ∧ d.initial ≠ '\x7b' := by
    cases d with
    | boolean value => cases value <;> decide
    | null | number _ | string _ => simp [Data.initial]
    | list _ | object _ => exact hd.elim
  rw [← show Json.initial c = d.initial from h] at hne
  constructor <;> rintro rfl
  · exact hne.1 rfl
  · exact hne.2 rfl

theorem skipScalar_of_spells {d : Data} (hd : d.IsScalar) (h : Spells (.value d) s)
    (hrest : Apart rest) : skipScalar (s ++ rest) = .ok rest := by
  cases h with
  | null => exact readWord_eq_ok.2 rfl
  | true => exact readWord_eq_ok.2 rfl
  | false => exact readWord_eq_ok.2 rfl
  | string hs =>
    obtain ⟨body, hbody, rfl⟩ := hs
    rw [List.cons_append, skipScalar, if_pos rfl]
    exact StringLiteral.skip_eq_ok.2 ⟨body, _, hbody, by simp⟩
  | number hn =>
    obtain ⟨n, hread, -⟩ := Number.read_of_isNumber .invalidNumber hn hrest
    obtain ⟨c, t, rfl, hc⟩ := hn.exists_head
    have hne {d : Char} (hd : ¬ (d = '-' ∨ d.isDigit = Bool.true)) : c ≠ d := by
      rintro rfl
      exact hd hc
    rw [List.cons_append] at hread ⊢
    rw [skipScalar, if_neg (hne (by decide)), if_neg (hne (by decide)), if_neg (hne (by decide)),
      if_neg (hne (by decide)), if_pos hc, hread]
    rfl
  | emptyList _ | list _ | emptyObject _ | object _ => exact hd.elim

theorem spells_of_skipScalar (h : skipScalar s = .ok rest) :
    ∃ d t, Spells (.value d) t ∧ s = t ++ rest := by
  unfold skipScalar at h
  split at h
  · exact absurd h (by simp)
  · rename_i c tail
    split_ifs at h with hquote hnull htrue hfalse hnumber
    · obtain ⟨body, units, hbody, rfl⟩ := StringLiteral.skip_eq_ok.1 h
      exact ⟨_, _, .string ⟨body, hbody, rfl⟩, by simp [hquote]⟩
    · exact ⟨_, _, .null, by rw [readWord_eq_ok.1 h, hnull]; rfl⟩
    · exact ⟨_, _, .true, by rw [readWord_eq_ok.1 h, htrue]; rfl⟩
    · exact ⟨_, _, .false, by rw [readWord_eq_ok.1 h, hfalse]; rfl⟩
    · cases hread : Number.read .invalidNumber (c :: tail) with
      | error fault => rw [hread] at h; exact absurd h (by simp [Except.map])
      | ok p =>
        rw [hread] at h
        obtain rfl := Except.ok.inj h
        obtain ⟨t, ht, hs⟩ := Number.isNumber_of_read hread
        exact ⟨_, t, .number ht, hs⟩

/-! ### Keys -/

theorem skipColon_eq_ok :
    skipColon s = .ok rest ↔ ∃ b, IsBlank b ∧ s = b ++ ':' :: rest := by
  constructor
  · intro h
    unfold skipColon at h
    split at h
    · exact absurd h (by simp)
    · rename_i c tail hs
      split_ifs at h with hc
      obtain rfl := Except.ok.inj h
      exact hc ▸ (skipBlank_eq_cons.1 hs).2
  · rintro ⟨b, hb, rfl⟩
    rw [skipColon, skipBlank_append hb]
    rfl

theorem skipKey_eq_ok :
    skipKey s = .ok rest ↔
      ∃ b k b' key, IsBlank b ∧ IsString k key ∧ IsBlank b' ∧ s = b ++ k ++ b' ++ ':' :: rest := by
  constructor
  · intro h
    unfold skipKey at h
    split at h
    · exact absurd h (by simp)
    · rename_i c tail hs
      split_ifs at h with hc
      obtain rfl := hc
      obtain ⟨-, b, hb, rfl⟩ := skipBlank_eq_cons.1 hs
      split at h
      · exact absurd h (by simp)
      · rename_i after hk
        obtain ⟨body, key, hbody, rfl⟩ := StringLiteral.skip_eq_ok.1 hk
        obtain ⟨b', hb', rfl⟩ := skipColon_eq_ok.1 h
        exact ⟨b, _, b', key, hb, ⟨body, hbody, rfl⟩, hb', by simp⟩
  · rintro ⟨b, k, b', key, hb, ⟨body, hbody, rfl⟩, hb', rfl⟩
    have hs : b ++ '\x22' :: (body ++ ['\x22']) ++ b' ++ ':' :: rest =
        b ++ '\x22' :: (body ++ '\x22' :: (b' ++ ':' :: rest)) := by simp
    have hskip : StringLiteral.skip (body ++ '\x22' :: (b' ++ ':' :: rest)) =
        .ok (b' ++ ':' :: rest) := StringLiteral.skip_eq_ok.2 ⟨body, key, hbody, rfl⟩
    rw [hs, skipKey, skipBlank_append hb, skipBlank_cons (by decide)]
    simp only [if_pos, hskip]
    exact skipColon_eq_ok.2 ⟨b', hb', rfl⟩

/-! ### One step of passing over -/

/-- `skipValue` without the equations that its termination needs. -/
theorem skipValue_eq (stack : List Frame) (s : List Char) :
    skipValue stack s =
      match skipBlank s with
      | [] => .error (.before .endInValue [])
      | '[' :: t =>
        match skipBlank t with
        | [] => .error (.before .endInList [])
        | ']' :: rest => skipRest stack rest
        | _ => skipValue (.list :: stack) t
      | '\x7b' :: t =>
        match skipBlank t with
        | '\x7d' :: rest => skipRest stack rest
        | _ => (skipKey t).bind (skipValue (.object :: stack))
      | t => (skipScalar t).bind (skipRest stack) := by
  rw [skipValue]
  split
  · rename_i hs
    simp only [hs]
  · rename_i t hs
    simp only [hs]
    split <;> rename_i ht <;> simp only [ht]
  · rename_i t hs
    simp only [hs]
    split
    · rename_i rest ht
      simp only [ht]
    · split <;> rename_i hk <;> simp only [hk, Except.bind]
  · rename_i hnil hlist hobject
    split <;> rename_i hk <;> simp only [hk, Except.bind]

theorem skipRest_nil (s : List Char) : skipRest [] s = .ok s := by rw [skipRest]

theorem skipRest_list (stack : List Frame) (s : List Char) :
    skipRest (.list :: stack) s =
      match skipBlank s with
      | [] => .error (.before .endInList [])
      | ',' :: rest => skipValue (.list :: stack) rest
      | ']' :: rest => skipRest stack rest
      | s => .error (.seeing .expectedListEnd s) := by
  rw [skipRest]
  split <;> rename_i hs <;> simp only [hs]

theorem skipRest_object (stack : List Frame) (s : List Char) :
    skipRest (.object :: stack) s =
      match skipBlank s with
      | [] => .error (.before .endInObject [])
      | ',' :: rest => (skipKey rest).bind (skipValue (.object :: stack))
      | '\x7d' :: rest => skipRest stack rest
      | s => .error (.seeing .expectedObjectEnd s) := by
  rw [skipRest]
  split
  · rename_i hs
    simp only [hs]
  · rename_i hs
    simp only [hs]
    split <;> rename_i hk <;> simp only [hk, Except.bind]
  · rename_i hs
    simp only [hs]
  · simp only

/-- Blanks in front of a value do not matter. -/
theorem skipValue_blank {b : List Char} (h : IsBlank b) :
    skipValue stack (b ++ s) = skipValue stack s := by
  rw [skipValue_eq, skipBlank_append h, ← skipValue_eq]

/-- Inside a list or an object, blanks behind a value do not matter. -/
theorem skipRest_blank {b : List Char} (frame : Frame) (h : IsBlank b) :
    skipRest (frame :: stack) (b ++ s) = skipRest (frame :: stack) s := by
  cases frame with
  | list => rw [skipRest_list, skipBlank_append h, ← skipRest_list]
  | object => rw [skipRest_object, skipBlank_append h, ← skipRest_object]

/-! ### What is in the grammar is passed over -/

theorem apart_cons {c : Char} (h : c ∈ [' ', '\t', '\n', '\r', ',', ']', '\x7d']) :
    Apart (c :: s) := by
  intro d hd
  obtain rfl := Option.some.inj hd
  simp only [List.mem_cons, List.not_mem_nil, or_false] at h
  rcases h with rfl | rfl | rfl | rfl | rfl | rfl | rfl <;> decide

theorem Apart.append {b : List Char} (hb : IsBlank b) (h : Apart s) : Apart (b ++ s) := by
  cases b with
  | nil => exact h
  | cons c b =>
    refine apart_cons ?_
    have := hb c List.mem_cons_self
    simp only [List.mem_cons, List.not_mem_nil, or_false] at this ⊢
    tauto

theorem Spells.element_head {d : Data} (h : Spells (.element d) s) :
    ∃ b c t, IsBlank b ∧ d.Starts c ∧ s = b ++ c :: t := by
  cases h with
  | element hb hv hb' =>
    obtain ⟨c, t, rfl, hc⟩ := hv.exists_head
    exact ⟨_, c, _, hb, hc, by rw [List.append_assoc, List.cons_append]⟩

theorem Spells.elements_head {ds : List Data} (h : Spells (.elements ds) s) :
    ∃ b c t, IsBlank b ∧ (∃ d : Data, d.Starts c) ∧ s = b ++ c :: t := by
  cases h with
  | lastElement h =>
    obtain ⟨b, c, t, hb, hc, rfl⟩ := h.element_head
    exact ⟨b, c, t, hb, ⟨_, hc⟩, rfl⟩
  | nextElement h hmore =>
    obtain ⟨b, c, t, hb, hc, rfl⟩ := h.element_head
    exact ⟨b, c, _, hb, ⟨_, hc⟩, by rw [List.append_assoc, List.cons_append]⟩

theorem Spells.member_head {key : List ℕ} {d : Data} (h : Spells (.member key d) s) :
    ∃ b t, IsBlank b ∧ s = b ++ '\x22' :: t := by
  cases h with
  | member hb hname hb' hv =>
    obtain ⟨body, -, rfl⟩ := hname
    exact ⟨_, _, hb, by simp only [List.append_assoc, List.cons_append]; rfl⟩

theorem Spells.members_head {ms : List (List ℕ × Data)} (h : Spells (.members ms) s) :
    ∃ b t, IsBlank b ∧ s = b ++ '\x22' :: t := by
  cases h with
  | lastMember h => exact h.member_head
  | nextMember h hmore =>
    obtain ⟨b, t, hb, rfl⟩ := h.member_head
    exact ⟨b, _, hb, by rw [List.append_assoc, List.cons_append]⟩

theorem skipValue_of_isScalar {d : Data} (h : Spells (.value d) s) (hd : d.IsScalar)
    (hrest : Apart rest) : skipValue stack (s ++ rest) = skipRest stack rest := by
  have hscalar := skipScalar_of_spells hd h hrest
  obtain ⟨c, t, rfl, hc⟩ := h.exists_head
  obtain ⟨hlist, hobject⟩ := hc.ne_of_isScalar hd
  rw [skipValue_eq, List.cons_append, skipBlank_cons hc.ne.1]
  split
  · rename_i heq
    exact absurd heq (List.cons_ne_nil _ _)
  · rename_i heq
    exact absurd (List.cons.inj heq).1 hlist
  · rename_i heq
    exact absurd (List.cons.inj heq).1 hobject
  · rw [List.cons_append] at hscalar
    rw [hscalar]
    rfl

/-- What passing over does where a passage stands. -/
def Passed (stack : List Frame) : Passage → List Char → Prop
  | .value _, s => ∀ rest, Apart rest → skipValue stack (s ++ rest) = skipRest stack rest
  | .element _, s => ∀ frame rest, Apart rest →
      skipValue (frame :: stack) (s ++ rest) = skipRest (frame :: stack) rest
  | .elements _, s => ∀ rest, skipValue (.list :: stack) (s ++ ']' :: rest) = skipRest stack rest
  | .member _ _, s => ∀ rest, Apart rest →
      (skipKey (s ++ rest)).bind (skipValue (.object :: stack)) = skipRest (.object :: stack) rest
  | .members _, s => ∀ rest,
      (skipKey (s ++ '\x7d' :: rest)).bind (skipValue (.object :: stack)) = skipRest stack rest

theorem Spells.passed {p : Passage} (h : Spells p s) : ∀ stack, Passed stack p s := by
  induction h with
  | null => exact fun _ _ => skipValue_of_isScalar .null trivial
  | true => exact fun _ _ => skipValue_of_isScalar .true trivial
  | false => exact fun _ _ => skipValue_of_isScalar .false trivial
  | number h => exact fun _ _ => skipValue_of_isScalar (.number h) trivial
  | string h => exact fun _ _ => skipValue_of_isScalar (.string h) trivial
  | emptyList hblank =>
    intro stack rest hrest
    rw [List.cons_append, List.append_assoc, List.singleton_append, skipValue_eq,
      skipBlank_cons (by decide)]
    simp only [skipBlank_append hblank, skipBlank_cons (c := ']') (by decide)]
  | @list s ds h ih =>
    intro stack rest hrest
    have hclose := ih stack rest
    obtain ⟨b, c, t, hb, ⟨d, hc⟩, rfl⟩ := h.elements_head
    rw [List.cons_append, List.append_assoc, List.singleton_append, skipValue_eq,
      skipBlank_cons (by decide)]
    simp only [List.append_assoc, List.cons_append] at hclose ⊢
    simp only [skipBlank_append hb, skipBlank_cons hc.ne.1]
    split
    · rename_i heq
      exact absurd heq (List.cons_ne_nil _ _)
    · rename_i heq
      exact absurd (List.cons.inj heq).1 hc.ne.2.1
    · exact hclose
  | emptyObject hblank =>
    intro stack rest hrest
    rw [List.cons_append, List.append_assoc, List.singleton_append, skipValue_eq,
      skipBlank_cons (by decide)]
    simp only [skipBlank_append hblank, skipBlank_cons (c := '\x7d') (by decide)]
  | @object s ms h ih =>
    intro stack rest hrest
    have hclose := ih stack rest
    obtain ⟨b, t, hb, rfl⟩ := h.members_head
    rw [List.cons_append, List.append_assoc, List.singleton_append, skipValue_eq,
      skipBlank_cons (by decide)]
    simp only [List.append_assoc, List.cons_append] at hclose ⊢
    simp only [skipBlank_append hb, skipBlank_cons (c := '\x22') (by decide)]
    exact hclose
  | element hbefore h hbehind ih =>
    intro stack frame rest hrest
    rw [List.append_assoc, List.append_assoc, skipValue_blank hbefore,
      ih (frame :: stack) _ (hrest.append hbehind), skipRest_blank frame hbehind]
  | lastElement h ih =>
    intro stack rest
    rw [ih stack .list _ (apart_cons (by decide)), skipRest_list, skipBlank_cons (by decide)]
    rfl
  | nextElement h hmore ih ihmore =>
    intro stack rest
    rw [List.append_assoc, List.cons_append, ih stack .list _ (apart_cons (by decide)),
      skipRest_list, skipBlank_cons (by decide)]
    exact ihmore stack rest
  | member hbefore hname hbehind h ih =>
    intro stack rest hrest
    rw [List.append_assoc, List.cons_append,
      skipKey_eq_ok.2 ⟨_, _, _, _, hbefore, hname, hbehind, rfl⟩]
    exact ih stack .object rest hrest
  | lastMember h ih =>
    intro stack rest
    rw [ih stack _ (apart_cons (by decide)), skipRest_object, skipBlank_cons (by decide)]
    rfl
  | nextMember h hmore ih ihmore =>
    intro stack rest
    rw [List.append_assoc, List.cons_append, ih stack _ (apart_cons (by decide)),
      skipRest_object, skipBlank_cons (by decide)]
    exact ihmore stack rest

/-! ### What is passed over is in the grammar -/

/-- Passing over succeeds only where the grammar has a value, in texts shorter than `n`. -/
structure Sound (n : ℕ) : Prop where
  value {stack : List Frame} {s rest : List Char} (hs : s.length < n)
    (h : skipValue stack s = .ok rest) :
    ∃ d b t s', IsBlank b ∧ Spells (.value d) t ∧ s = b ++ (t ++ s') ∧ skipRest stack s' = .ok rest
  elements {stack : List Frame} {s rest : List Char} (hs : s.length < n)
    (h : skipValue (.list :: stack) s = .ok rest) :
    ∃ ds t s', Spells (.elements ds) t ∧ s = t ++ ']' :: s' ∧ skipRest stack s' = .ok rest
  members {stack : List Frame} {s after rest : List Char} (hs : s.length < n)
    (hkey : skipKey s = .ok after) (h : skipValue (.object :: stack) after = .ok rest) :
    ∃ ms t s', Spells (.members ms) t ∧ s = t ++ '\x7d' :: s' ∧ skipRest stack s' = .ok rest

theorem Except.bind_eq_ok {ε α β : Type} {x : Except ε α} {f : α → Except ε β} {b : β} :
    x.bind f = .ok b ↔ ∃ a, x = .ok a ∧ f a = .ok b := by
  cases x <;> simp [Except.bind]

theorem Sound.value_succ {n : ℕ} (ih : Sound n) (hs : s.length < n + 1)
    (h : skipValue stack s = .ok rest) :
    ∃ d b t s', IsBlank b ∧ Spells (.value d) t ∧ s = b ++ (t ++ s') ∧
      skipRest stack s' = .ok rest := by
  obtain ⟨b, hb, hsb⟩ := exists_blank s
  have hlen := length_skipBlank s
  rw [skipValue_eq] at h
  split at h
  · exact absurd h (by simp)
  · rename_i t heq
    rw [heq] at hsb hlen
    split at h
    · exact absurd h (by simp)
    · rename_i s' ht
      obtain ⟨-, b', hb', rfl⟩ := skipBlank_eq_cons.1 ht
      exact ⟨_, b, _, s', hb, .emptyList hb', by simp [hsb], h⟩
    · have ht : t.length < n := by simp only [List.length_cons] at hlen; omega
      obtain ⟨ds, t, s', hds, rfl, hrest⟩ := ih.elements ht h
      exact ⟨_, b, _, s', hb, .list hds, by simp [hsb], hrest⟩
  · rename_i t heq
    rw [heq] at hsb hlen
    split at h
    · rename_i s' ht
      obtain ⟨-, b', hb', rfl⟩ := skipBlank_eq_cons.1 ht
      exact ⟨_, b, _, s', hb, .emptyObject hb', by simp [hsb], h⟩
    · have ht : t.length < n := by simp only [List.length_cons] at hlen; omega
      obtain ⟨after, hkey, hvalue⟩ := Except.bind_eq_ok.1 h
      obtain ⟨ms, t, s', hms, rfl, hrest⟩ := ih.members ht hkey hvalue
      exact ⟨_, b, _, s', hb, .object hms, by simp [hsb], hrest⟩
  · obtain ⟨s', hscalar, hrest⟩ := Except.bind_eq_ok.1 h
    obtain ⟨d, t, ht, heq⟩ := spells_of_skipScalar hscalar
    exact ⟨d, b, t, s', hb, ht, by rw [← heq]; exact hsb, hrest⟩

theorem sound (n : ℕ) : Sound n := by
  induction n with
  | zero =>
    exact ⟨fun hs => absurd hs (Nat.not_lt_zero _), fun hs => absurd hs (Nat.not_lt_zero _),
      fun hs => absurd hs (Nat.not_lt_zero _)⟩
  | succ n ih =>
    refine ⟨ih.value_succ, ?_, ?_⟩
    · intro stack s rest hs h
      obtain ⟨d, b, t, s', hb, ht, rfl, hrest⟩ := ih.value_succ hs h
      rw [skipRest_list] at hrest
      split at hrest
      · exact absurd hrest (by simp)
      · rename_i after heq
        obtain ⟨-, b', hb', rfl⟩ := skipBlank_eq_cons.1 heq
        have hafter : after.length < n := by
          simp only [List.length_append, List.length_cons] at hs
          omega
        obtain ⟨ds, u, s', hds, rfl, hclose⟩ := ih.elements hafter hrest
        exact ⟨d :: ds, _, s', .nextElement (.element hb ht hb') hds, by simp, hclose⟩
      · rename_i after heq
        obtain ⟨-, b', hb', rfl⟩ := skipBlank_eq_cons.1 heq
        exact ⟨[d], _, after, .lastElement (.element hb ht hb'), by simp, hrest⟩
      · exact absurd hrest (by simp)
    · intro stack s after rest hs hkey h
      obtain ⟨b, k, b', key, hb, hk, hb', rfl⟩ := skipKey_eq_ok.1 hkey
      have hafter : after.length < n + 1 := by
        simp only [List.length_append, List.length_cons] at hs
        omega
      obtain ⟨d, b₁, t, s', hb₁, ht, rfl, hrest⟩ := ih.value_succ hafter h
      rw [skipRest_object] at hrest
      split at hrest
      · exact absurd hrest (by simp)
      · rename_i after heq
        obtain ⟨-, b₂, hb₂, rfl⟩ := skipBlank_eq_cons.1 heq
        have hafter : after.length < n := by
          simp only [List.length_append, List.length_cons] at hs
          omega
        obtain ⟨key', hkey', hvalue⟩ := Except.bind_eq_ok.1 hrest
        obtain ⟨ms, u, s', hms, rfl, hclose⟩ := ih.members hafter hkey' hvalue
        exact ⟨(key, d) :: ms, _, s', .nextMember (.member hb hk hb' (.element hb₁ ht hb₂)) hms,
          by simp, hclose⟩
      · rename_i after heq
        obtain ⟨-, b₂, hb₂, rfl⟩ := skipBlank_eq_cons.1 heq
        exact ⟨[(key, d)], _, after, .lastMember (.member hb hk hb' (.element hb₁ ht hb₂)),
          by simp, hrest⟩
      · exact absurd hrest (by simp)

/-- Passing over takes a value with blanks in front of it. -/
theorem spells_of_skipValue (h : skipValue [] s = .ok rest) :
    ∃ d b t, IsBlank b ∧ Spells (.value d) t ∧ s = b ++ (t ++ rest) := by
  obtain ⟨d, b, t, s', hb, ht, hs, hrest⟩ := (sound (s.length + 1)).value (Nat.lt_succ_self _) h
  rw [skipRest_nil] at hrest
  obtain rfl := Except.ok.inj hrest
  exact ⟨d, b, t, hb, ht, hs⟩

theorem skipValue_of_spells {d : Data} (h : Spells (.value d) t) (hrest : Apart rest) :
    skipValue [] (t ++ rest) = .ok rest := by
  have hpassed : Passed [] (.value d) t := h.passed []
  rw [hpassed rest hrest, skipRest_nil]

/-! ### What a text stands for is determined -/

/-- Data of one kind; truth values must be the same too. -/
inductive Data.Akin : Data → Data → Prop where
  | null : Akin .null .null
  | boolean (value : Bool) : Akin (.boolean value) (.boolean value)
  | number (x y : ℚ) : Akin (.number x) (.number y)
  | string (us vs : List ℕ) : Akin (.string us) (.string vs)
  | list (ds es : List Data) : Akin (.list ds) (.list es)
  | object (ms ns : List (List ℕ × Data)) : Akin (.object ms) (.object ns)

/-- The first character of a value tells its kind. -/
theorem Data.Starts.akin {d e : Data} {c : Char} (h : d.Starts c) (h' : e.Starts c) :
    d.Akin e := by
  have hinitial : d.initial = e.initial := h.symm.trans h'
  rcases d with _ | (_ | _) | x | us | ds | ms <;> rcases e with _ | (_ | _) | y | vs | es | ns
  all_goals first
    | constructor
    | exact absurd hinitial (by simp [Data.initial])

theorem Spells.akin {d e : Data} (h : Spells (.value d) s) (h' : Spells (.value e) s) :
    d.Akin e := by
  obtain ⟨c, t, rfl, hc⟩ := h.exists_head
  obtain ⟨c', t', heq, hc'⟩ := h'.exists_head
  obtain ⟨rfl, -⟩ := List.cons.inj heq
  exact hc.akin hc'

theorem spells_list_iff {ds : List Data} :
    Spells (.value (.list ds)) s ↔
      (ds = [] ∧ ∃ b, IsBlank b ∧ s = '[' :: (b ++ [']'])) ∨
        ∃ t, Spells (.elements ds) t ∧ s = '[' :: (t ++ [']']) := by
  constructor
  · intro h
    cases h with
    | emptyList hb => exact .inl ⟨rfl, _, hb, rfl⟩
    | list h => exact .inr ⟨_, h, rfl⟩
  · rintro (⟨rfl, b, hb, rfl⟩ | ⟨t, h, rfl⟩)
    · exact .emptyList hb
    · exact .list h

theorem spells_object_iff {ms : List (List ℕ × Data)} :
    Spells (.value (.object ms)) s ↔
      (ms = [] ∧ ∃ b, IsBlank b ∧ s = '\x7b' :: (b ++ ['\x7d'])) ∨
        ∃ t, Spells (.members ms) t ∧ s = '\x7b' :: (t ++ ['\x7d']) := by
  constructor
  · intro h
    cases h with
    | emptyObject hb => exact .inl ⟨rfl, _, hb, rfl⟩
    | object h => exact .inr ⟨_, h, rfl⟩
  · rintro (⟨rfl, b, hb, rfl⟩ | ⟨t, h, rfl⟩)
    · exact .emptyObject hb
    · exact .object h

theorem Spells.elements_not_blank {ds : List Data} (h : Spells (.elements ds) s) : ¬ IsBlank s := by
  obtain ⟨b, c, t, -, ⟨d, hc⟩, rfl⟩ := h.elements_head
  intro hblank
  have hc' := isBlank_iff.2 (hblank c (by simp))
  exact absurd hc.ne.1 (by simp [hc'])

theorem Spells.members_not_blank {ms : List (List ℕ × Data)} (h : Spells (.members ms) s) :
    ¬ IsBlank s := by
  obtain ⟨b, t, -, rfl⟩ := h.members_head
  intro hblank
  exact absurd (hblank '\x22' (by simp)) (by decide)

/-- The text goes on with what may follow an element, or ends. -/
def Stops (s : List Char) : Prop := ∀ c, s.head? = some c → c ∈ [',', ']', '\x7d']

theorem stops_cons {c : Char} (h : c ∈ [',', ']', '\x7d']) : Stops (c :: s) := by
  intro d hd
  obtain rfl := Option.some.inj hd
  exact h

theorem stops_nil : Stops [] := fun _ h => absurd h (by simp)

theorem Stops.apart (h : Stops s) : Apart s := by
  cases s with
  | nil => exact fun _ h => absurd h (by simp)
  | cons c s =>
    have := h c rfl
    exact apart_cons (by simp only [List.mem_cons, List.not_mem_nil, or_false] at this ⊢; tauto)

theorem Stops.skipBlank_eq (h : Stops s) : skipBlank s = s := by
  cases s with
  | nil => rfl
  | cons c s =>
    refine skipBlank_cons ?_
    have := h c rfl
    simp only [List.mem_cons, List.not_mem_nil, or_false] at this
    rcases this with rfl | rfl | rfl <;> decide

/-- Where a value ends is determined. -/
theorem Spells.value_append_inj {d d' : Data} {rest' : List Char} (h : Spells (.value d) s)
    (h' : Spells (.value d') t) (hrest : Apart rest) (hrest' : Apart rest')
    (heq : s ++ rest = t ++ rest') : s = t ∧ rest = rest' := by
  have hskip := skipValue_of_spells h hrest
  rw [heq, skipValue_of_spells h' hrest'] at hskip
  obtain rfl := Except.ok.inj hskip
  exact ⟨List.append_cancel_right heq, rfl⟩

/-- Where a string ends is determined. -/
theorem IsString.append_inj {us vs : List ℕ} {rest' : List Char} (h : IsString s us)
    (h' : IsString t vs) (heq : s ++ rest = t ++ rest') : s = t ∧ rest = rest' := by
  obtain ⟨body, hbody, rfl⟩ := h
  obtain ⟨body', hbody', rfl⟩ := h'
  simp only [List.cons_append, List.append_assoc, List.nil_append, List.cons.injEq,
    true_and] at heq ⊢
  have hskip : StringLiteral.skip (body ++ '\x22' :: rest) = .ok rest :=
    StringLiteral.skip_eq_ok.2 ⟨body, us, hbody, rfl⟩
  rw [heq, StringLiteral.skip_eq_ok.2 ⟨body', vs, hbody', rfl⟩] at hskip
  obtain rfl := Except.ok.inj hskip
  exact ⟨by rw [List.append_cancel_right heq], rfl⟩

/-- A passage stands for one thing only, and ends at one place only. -/
def Determined : Passage → List Char → Prop
  | .value d, s => ∀ d', Spells (.value d') s → d = d'
  | .element d, s => ∀ d' s' rest rest', Spells (.element d') s' → Stops rest → Stops rest' →
      s ++ rest = s' ++ rest' → d = d' ∧ rest = rest'
  | .elements ds, s => ∀ ds', Spells (.elements ds') s → ds = ds'
  | .member key d, s => ∀ key' d' s' rest rest', Spells (.member key' d') s' → Stops rest →
      Stops rest' → s ++ rest = s' ++ rest' → key = key' ∧ d = d' ∧ rest = rest'
  | .members ms, s => ∀ ms', Spells (.members ms') s → ms = ms'

theorem Spells.skipBlank_value {d : Data} (h : Spells (.value d) s) (t : List Char) :
    skipBlank (s ++ t) = s ++ t := by
  obtain ⟨c, s, rfl, hc⟩ := h.exists_head
  exact skipBlank_cons hc.ne.1

theorem IsString.skipBlank_eq {us : List ℕ} (h : IsString s us) (t : List Char) :
    skipBlank (s ++ t) = s ++ t := by
  obtain ⟨body, -, rfl⟩ := h
  exact skipBlank_cons (by decide)

theorem Spells.determined_element {b v b' : List Char} {d : Data} (hb : IsBlank b)
    (hv : Spells (.value d) v) (hb' : IsBlank b') (ih : Determined (.value d) v) :
    Determined (.element d) (b ++ v ++ b') := by
  intro d' s' rest rest' h hrest hrest' heq
  cases h with
  | @element b₁ v₁ b₁' _ hb₁ hv₁ hb₁' =>
    simp only [List.append_assoc] at heq
    have hvalues := blank_append_cancel hb hb₁ (hv.skipBlank_value _) (hv₁.skipBlank_value _) heq
    obtain ⟨rfl, hbehind⟩ := hv.value_append_inj hv₁ (hrest.apart.append hb')
      (hrest'.apart.append hb₁') hvalues
    exact ⟨ih d' hv₁, blank_append_cancel hb' hb₁' hrest.skipBlank_eq hrest'.skipBlank_eq hbehind⟩

theorem Spells.determined_member {b k b' v : List Char} {key : List ℕ} {d : Data}
    (hb : IsBlank b) (hk : IsString k key) (hb' : IsBlank b') (ih : Determined (.element d) v) :
    Determined (.member key d) (b ++ k ++ b' ++ ':' :: v) := by
  intro key' d' s' rest rest' h hrest hrest' heq
  cases h with
  | @member b₁ k₁ b₁' v₁ _ _ hb₁ hk₁ hb₁' hv₁ =>
    simp only [List.append_assoc] at heq
    have hkeys := blank_append_cancel hb hb₁ (hk.skipBlank_eq _) (hk₁.skipBlank_eq _) heq
    obtain ⟨rfl, hbehind⟩ := hk.append_inj hk₁ hkeys
    have hcolon := blank_append_cancel hb' hb₁' (skipBlank_cons (by decide))
      (skipBlank_cons (by decide)) hbehind
    obtain ⟨hd, hstop⟩ := ih d' v₁ rest rest' hv₁ hrest hrest' (List.cons.inj hcolon).2
    exact ⟨hk.unique hk₁, hd, hstop⟩

theorem Spells.determined {p : Passage} (h : Spells p s) : Determined p s := by
  -- Where one passage ends, another one cannot go on with a comma.
  have comma {t : List Char} : ',' :: t ≠ [] := List.cons_ne_nil _ _
  induction h with
  | null =>
    intro d' h'
    cases Spells.null.akin h'
    rfl
  | true =>
    intro d' h'
    cases Spells.true.akin h'
    rfl
  | false =>
    intro d' h'
    cases Spells.false.akin h'
    rfl
  | number h =>
    intro d' h'
    cases (Spells.number h).akin h'
    cases h' with
    | number h' => rw [h.unique h']
  | string h =>
    intro d' h'
    cases (Spells.string h).akin h'
    cases h' with
    | string h' => rw [h.unique h']
  | emptyList hb =>
    intro d' h'
    cases (Spells.emptyList hb).akin h'
    obtain ⟨rfl, -⟩ | ⟨t, ht, heq⟩ := spells_list_iff.1 h'
    · rfl
    · obtain rfl := List.append_cancel_right (List.cons.inj heq).2
      exact absurd hb ht.elements_not_blank
  | list h ih =>
    intro d' h'
    cases (Spells.list h).akin h'
    obtain ⟨-, b, hb, heq⟩ | ⟨t, ht, heq⟩ := spells_list_iff.1 h'
    · obtain rfl := List.append_cancel_right (List.cons.inj heq).2
      exact absurd hb h.elements_not_blank
    · obtain rfl := List.append_cancel_right (List.cons.inj heq).2
      rw [ih _ ht]
  | emptyObject hb =>
    intro d' h'
    cases (Spells.emptyObject hb).akin h'
    obtain ⟨rfl, -⟩ | ⟨t, ht, heq⟩ := spells_object_iff.1 h'
    · rfl
    · obtain rfl := List.append_cancel_right (List.cons.inj heq).2
      exact absurd hb ht.members_not_blank
  | object h ih =>
    intro d' h'
    cases (Spells.object h).akin h'
    obtain ⟨-, b, hb, heq⟩ | ⟨t, ht, heq⟩ := spells_object_iff.1 h'
    · obtain rfl := List.append_cancel_right (List.cons.inj heq).2
      exact absurd hb h.members_not_blank
    · obtain rfl := List.append_cancel_right (List.cons.inj heq).2
      rw [ih _ ht]
  | element hb h hb' ih => exact Spells.determined_element hb h hb' ih
  | lastElement h ih =>
    intro ds' h'
    cases h' with
    | lastElement h' => rw [(ih _ _ [] [] h' stops_nil stops_nil rfl).1]
    | nextElement h' hmore =>
      have hend := (ih _ _ [] _ h' stops_nil (stops_cons (by decide)) (List.append_nil _)).2
      exact absurd hend.symm comma
  | nextElement h hmore ih ihmore =>
    intro ds' h'
    generalize hs : _ ++ ',' :: _ = whole at h'
    cases h' with
    | lastElement h' =>
      have hend := (ih _ _ _ [] h' (stops_cons (by decide)) stops_nil
        (hs.trans (List.append_nil _).symm)).2
      exact absurd hend comma
    | nextElement h' hmore' =>
      obtain ⟨rfl, hend⟩ := ih _ _ _ _ h' (stops_cons (by decide)) (stops_cons (by decide)) hs
      obtain rfl := (List.cons.inj hend).2
      rw [ihmore _ hmore']
  | member hb hk hb' h ih => exact Spells.determined_member hb hk hb' ih
  | lastMember h ih =>
    intro ms' h'
    cases h' with
    | lastMember h' =>
      obtain ⟨rfl, rfl, -⟩ := ih _ _ _ [] [] h' stops_nil stops_nil rfl
      rfl
    | nextMember h' hmore =>
      have hend := (ih _ _ _ [] _ h' stops_nil (stops_cons (by decide)) (List.append_nil _)).2.2
      exact absurd hend.symm comma
  | nextMember h hmore ih ihmore =>
    intro ms' h'
    generalize hs : _ ++ ',' :: _ = whole at h'
    cases h' with
    | lastMember h' =>
      have hend := (ih _ _ _ _ [] h' (stops_cons (by decide)) stops_nil
        (hs.trans (List.append_nil _).symm)).2.2
      exact absurd hend comma
    | nextMember h' hmore' =>
      obtain ⟨rfl, rfl, hend⟩ :=
        ih _ _ _ _ _ h' (stops_cons (by decide)) (stops_cons (by decide)) hs
      obtain rfl := (List.cons.inj hend).2
      rw [ihmore _ hmore']

/-- A text stands for one thing at most. -/
theorem IsText.unique {d d' : Data} (h : IsText s d) (h' : IsText s d') : d = d' := by
  have hd : Determined (.element d) s := Spells.determined h
  exact (hd d' s [] [] h' stops_nil stops_nil rfl).1

end ImportScan.Json
