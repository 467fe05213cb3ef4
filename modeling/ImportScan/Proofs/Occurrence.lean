import ImportScan.Text.Reference
import Mathlib.Data.List.Basic
import Mathlib.Data.List.Range
import Mathlib.Data.List.Infix

/-!
Where references stand in a text. `Occurs` says that a reference stands at a position, whatever
search finds it. Two references never overlap, so the search that goes on behind each reference
found (`names`) gives what the search started afresh at every position (`occurrences`) gives.
-/

namespace ImportScan.Reference

open ModuleName

/-- The names a reference may have: ASCII letters and digits, `_`, `@`, `-` and `/`, at least one
of them and no `/` in front. -/
structure IsName (name : List Char) : Prop where
  nonempty : name ≠ []
  not_rooted : name.head? ≠ some '/'
  parts : ∀ c ∈ name, c.isAlphanum = true ∨ c ∈ ['_', '@', '-', '/']

/-- `text` is a reference to `name`: a keyword, a quote, the name and a quote. -/
def IsReference (text name : List Char) : Prop :=
  ∃ word ∈ ["require(", "from ", "import "], ∃ q ∈ ['\x27', '\x22'], ∃ q' ∈ ['\x27', '\x22'],
    IsName name ∧ text = word.toList ++ q :: (name ++ [q'])

/-- The reference `text` to `name` stands at position `i` of `s`. -/
def Occurs (s : List Char) (i : ℕ) (text name : List Char) : Prop :=
  IsReference text name ∧ text <+: s.drop i

/-! ### Names and quotes -/

theorem isPart_iff {c : Char} :
    isPart c = true ↔ c.isAlphanum = true ∨ c ∈ ['_', '@', '-', '/'] := by
  simp only [isPart, isStart, Bool.or_eq_true, beq_iff_eq, List.mem_cons, List.not_mem_nil,
    or_false]
  tauto

theorem isStart_iff {c : Char} : isStart c = true ↔ isPart c = true ∧ c ≠ '/' := by
  constructor
  · intro h
    refine ⟨isPart_of_isStart h, ?_⟩
    rintro rfl
    exact absurd h (by decide)
  · rintro ⟨h, hc⟩
    simpa [isPart, hc] using h

theorem accepts_iff {name : List Char} : accepts name = true ↔ IsName name := by
  rcases name with _ | ⟨c, rest⟩
  · refine ⟨fun h => absurd h (by decide), fun h => absurd rfl h.nonempty⟩
  · rw [accepts, Bool.and_eq_true, isStart_iff, List.all_eq_true]
    constructor
    · rintro ⟨⟨hc, hne⟩, hrest⟩
      refine ⟨List.cons_ne_nil _ _, by simpa using hne, fun x hx => isPart_iff.1 ?_⟩
      rcases List.mem_cons.1 hx with rfl | hx
      · exact hc
      · exact hrest x hx
    · intro h
      refine ⟨⟨isPart_iff.2 (h.parts c List.mem_cons_self), by simpa using h.not_rooted⟩, ?_⟩
      exact fun x hx => isPart_iff.2 (h.parts x (List.mem_cons_of_mem c hx))

theorem IsName.isPart {name : List Char} (h : IsName name) {c : Char} (hc : c ∈ name) :
    isPart c = true :=
  isPart_iff.2 (h.parts c hc)

theorem isQuote_iff {q : Char} : isQuote q = true ↔ q ∈ ['\x27', '\x22'] := by
  simp [isQuote, or_comm]

/-- What the readers look for is what a reference is made of. -/
theorem isReference_iff {text name : List Char} :
    IsReference text name ↔ ∃ word ∈ keywords, ∃ q q', isQuote q = true ∧ isQuote q' = true ∧
      IsName name ∧ text = word ++ q :: (name ++ [q']) := by
  have hkeywords : keywords = ["require(", "from ", "import "].map String.toList := rfl
  constructor
  · rintro ⟨word, hword, q, hq, q', hq', hname, rfl⟩
    exact ⟨word.toList, hkeywords ▸ List.mem_map_of_mem hword, q, q', isQuote_iff.2 hq,
      isQuote_iff.2 hq', hname, rfl⟩
  · rintro ⟨letters, hletters, q, q', hq, hq', hname, rfl⟩
    obtain ⟨word, hword, rfl⟩ := List.mem_map.1 (hkeywords ▸ hletters)
    exact ⟨word, hword, q, isQuote_iff.1 hq, q', isQuote_iff.1 hq', hname, rfl⟩

theorem not_isPart_of_isQuote {q : Char} (h : isQuote q = true) : ¬isPart q = true := by
  simp only [isQuote, Bool.or_eq_true, beq_iff_eq] at h
  rcases h with rfl | rfl <;> decide

/-! ### What the readers accept -/

theorem after?_eq_some {word s rest : List Char} :
    after? word s = some rest ↔ s = word ++ rest := by
  induction word generalizing s with
  | nil => simp [after?]
  | cons w word ih =>
    rcases s with _ | ⟨c, s⟩
    · simp [after?]
    · by_cases hc : w = c
      · subst hc; simp [after?, ih]
      · simp [after?, hc, Ne.symm hc]

theorem quotedName?_eq_some {s name rest : List Char} :
    quotedName? s = some (name, rest) ↔
      ∃ q q', isQuote q = true ∧ isQuote q' = true ∧ IsName name ∧
        s = q :: (name ++ q' :: rest) := by
  constructor
  · intro h
    match s with
    | [] => simp [quotedName?] at h
    | [_] => simp [quotedName?] at h
    | q :: c :: s =>
      simp only [quotedName?] at h
      split at h
      · rename_i hqc
        split at h
        · rename_i q' tail hd
          split at h
          · rename_i hq'
            obtain ⟨rfl, rfl⟩ : c :: s.takeWhile isPart = name ∧ tail = rest := by simpa using h
            obtain ⟨hq, hc⟩ := Bool.and_eq_true_iff.1 hqc
            refine ⟨q, q', hq, hq', accepts_iff.1 ?_, ?_⟩
            · rw [accepts, hc, Bool.true_and]
              exact List.all_takeWhile
            · rw [List.cons_append, ← hd, List.takeWhile_append_dropWhile]
          · simp at h
        · simp at h
      · simp at h
  · rintro ⟨q, q', hq, hq', hname, rfl⟩
    have hacc := accepts_iff.2 hname
    rcases name with _ | ⟨c, tail⟩
    · exact absurd rfl hname.nonempty
    · obtain ⟨hc, htail⟩ := Bool.and_eq_true_iff.1 hacc
      have hparts : ∀ x ∈ tail, isPart x = true := List.all_eq_true.1 htail
      have hstop : isPart q' = false := by simpa using not_isPart_of_isQuote hq'
      have hdrop : (tail ++ q' :: rest).dropWhile isPart = q' :: rest := by
        rw [List.dropWhile_append_of_pos hparts, List.dropWhile_cons_of_neg (by simp [hstop])]
      have htake : (tail ++ q' :: rest).takeWhile isPart = tail := by
        rw [List.takeWhile_append_of_pos hparts, List.takeWhile_cons_of_neg (by simp [hstop]),
          List.append_nil]
      simp only [List.cons_append, quotedName?, hq, hc, hdrop, hq', htake, Bool.and_self, if_true]

/-! ### Keywords -/

/-- What starts inside a keyword, or at its first character, is no keyword but itself. -/
theorem keyword_apart : ∀ word ∈ keywords, ∀ tail ∈ word.tails, tail ≠ [] →
    ∀ other ∈ keywords, tail <+: other ∨ other <+: tail → tail = word ∧ other = word := by
  decide +kernel

/-- A keyword holds a character that no name has, and no quote. -/
theorem keyword_chars : ∀ word ∈ keywords,
    word.any (fun c => !isPart c) = true ∧ word.any isQuote = false := by
  decide

theorem keyword_ne_nil {word : List Char} (hw : word ∈ keywords) : word ≠ [] := by
  rintro rfl
  exact absurd hw (by decide)

theorem keyword_eq {word other s t : List Char} (hw : word ∈ keywords) (ho : other ∈ keywords)
    (h : word ++ s = other ++ t) : other = word := by
  have hself : word ∈ word.tails := (List.mem_tails _ _).2 List.suffix_rfl
  refine (keyword_apart word hw word hself (keyword_ne_nil hw) other ho ?_).2
  exact List.prefix_or_prefix_of_prefix (List.prefix_append word s) (h ▸ List.prefix_append other t)

/-- No keyword starts inside a name or at the quote behind it. -/
theorem not_keyword_prefix {word rest : List Char} {q : Char} (name : List Char)
    (hw : word ∈ keywords) (hname : ∀ c ∈ name, isPart c = true) (hq : isQuote q = true) :
    ¬word <+: name ++ q :: rest := by
  intro h
  obtain ⟨hany, hnone⟩ := keyword_chars word hw
  obtain ⟨x, hx, hpart⟩ := List.any_eq_true.1 hany
  have hquote : ∀ c ∈ word, ¬isQuote c = true := List.any_eq_false.1 hnone
  have hend : name ++ [q] <+: name ++ q :: rest := ⟨rest, by simp⟩
  rcases List.prefix_or_prefix_of_prefix h hend with hin | hover
  · rcases List.mem_append.1 (hin.subset hx) with hmem | hmem
    · rw [hname x hmem] at hpart
      exact absurd hpart (by decide)
    · rw [List.mem_singleton.1 hmem] at hx
      exact hquote q hx hq
  · exact hquote q (hover.subset (by simp)) hq

theorem read?_eq_some {s name rest : List Char} :
    read? s = some (name, rest) ↔ ∃ text, IsReference text name ∧ s = text ++ rest := by
  rw [read?, Option.bind_eq_some_iff]
  constructor
  · rintro ⟨t, ht, hquoted⟩
    obtain ⟨word, hw, hafter⟩ := List.exists_of_findSome?_eq_some ht
    obtain ⟨q, q', hq, hq', hname, rfl⟩ := quotedName?_eq_some.1 hquoted
    refine ⟨_, isReference_iff.2 ⟨word, hw, q, q', hq, hq', hname, rfl⟩, ?_⟩
    rw [after?_eq_some.1 hafter]
    simp
  · rintro ⟨text, href, rfl⟩
    obtain ⟨word, hw, q, q', hq, hq', hname, rfl⟩ := isReference_iff.1 href
    refine ⟨q :: (name ++ q' :: rest), ?_, quotedName?_eq_some.2 ⟨q, q', hq, hq', hname, rfl⟩⟩
    have hs : word ++ q :: (name ++ [q']) ++ rest = word ++ (q :: (name ++ q' :: rest)) := by simp
    rw [hs]
    -- some keyword is found, and it can be no other than `word`
    have hsome : (keywords.findSome? (after? · (word ++ (q :: (name ++ q' :: rest))))).isSome := by
      rw [List.findSome?_isSome_iff]
      exact ⟨word, hw, Option.isSome_iff_exists.2 ⟨_, after?_eq_some.2 rfl⟩⟩
    obtain ⟨t, ht⟩ := Option.isSome_iff_exists.1 hsome
    obtain ⟨other, ho, hafter⟩ := List.exists_of_findSome?_eq_some ht
    have heq := after?_eq_some.1 hafter
    rw [keyword_eq hw ho heq, List.append_cancel_left_eq] at heq
    rw [ht, heq]

theorem read?_nil : read? [] = none := by decide

/-! ### Occurrences do not overlap -/

/-- The text of a reference starts no other reference behind its first character. -/
theorem not_reference_inside {text name skipped tail other name' rest : List Char}
    (h : IsReference text name) (ht : text = skipped ++ tail) (hskipped : skipped ≠ [])
    (htail : tail ≠ []) (h' : IsReference other name') : ¬other <+: tail ++ rest := by
  obtain ⟨word, hw, q, q', hq, hq', hname, rfl⟩ := isReference_iff.1 h
  obtain ⟨word', hw', p, p', -, -, -, rfl⟩ := isReference_iff.1 h'
  intro hpre
  replace hpre : word' <+: tail ++ rest := (List.prefix_append _ _).trans hpre
  have hparts : ∀ c ∈ name, isPart c = true := fun c hc => hname.isPart hc
  rcases List.append_eq_append_iff.1 ht with ⟨inner, rfl, hrest⟩ | ⟨inner, rfl, rfl⟩
  · -- the tail starts at the opening quote or behind it
    rcases inner with _ | ⟨c, inner⟩
    · rw [List.nil_append] at hrest
      subst hrest
      exact not_keyword_prefix [] hw' (by simp) hq (by simpa using hpre)
    · obtain ⟨-, hrest⟩ := List.cons.inj hrest
      have hsuffix : tail <:+ name ++ [q'] := ⟨inner, hrest.symm⟩
      rcases List.suffix_concat_iff.1 hsuffix with rfl | ⟨part, rfl, hpart⟩
      · exact htail rfl
      · refine not_keyword_prefix part hw' (fun c hc => ?_) hq' (by simpa using hpre)
        exact hparts c (hpart.subset hc)
  · -- the tail starts inside the keyword, or at the quote behind it
    rcases eq_or_ne inner [] with rfl | hinner
    · exact not_keyword_prefix [] hw' (by simp) hq (by simpa using hpre)
    · have hin : inner <+: inner ++ q :: (name ++ [q']) ++ rest := by
        rw [List.append_assoc]; exact List.prefix_append _ _
      have hmem : inner ∈ (skipped ++ inner).tails :=
        (List.mem_tails _ _).2 (List.suffix_append _ _)
      have hself := (keyword_apart _ hw inner hmem hinner word' hw'
        (List.prefix_or_prefix_of_prefix hin hpre)).1
      exact hskipped (by simpa using hself)

theorem read?_inside {text name skipped tail rest : List Char} (h : IsReference text name)
    (ht : text = skipped ++ tail) (hskipped : skipped ≠ []) (htail : tail ≠ []) :
    read? (tail ++ rest) = none := by
  rw [Option.eq_none_iff_forall_ne_some]
  rintro ⟨name', rest'⟩ hread
  obtain ⟨other, h', heq⟩ := read?_eq_some.1 hread
  have hpre : other <+: tail ++ rest := ⟨rest', heq.symm⟩
  exact not_reference_inside h ht hskipped htail h' hpre

/-- Two references never share a character, so at each position there is one at most. -/
theorem Occurs.apart {s : List Char} {i j : ℕ} {text other name name' : List Char}
    (h : Occurs s i text name) (h' : Occurs s j other name') (hij : i < j) :
    i + text.length ≤ j := by
  by_contra hlt
  obtain ⟨rest, hrest⟩ := h.2
  have hk : s.drop j = text.drop (j - i) ++ rest := by
    rw [← List.drop_append_of_le_length (by omega), hrest, List.drop_drop]
    congr 1; omega
  have hsplit : text = text.take (j - i) ++ text.drop (j - i) := (List.take_append_drop _ _).symm
  refine not_reference_inside h.1 hsplit ?_ ?_ h'.1 (hk ▸ h'.2)
  · rw [Ne, List.take_eq_nil_iff]
    rintro (h0 | h0)
    · omega
    · rw [h0] at hlt; simp at hlt; omega
  · rw [Ne, List.drop_eq_nil_iff]; omega

theorem Occurs.read? {s : List Char} {i : ℕ} {text name : List Char} (h : Occurs s i text name) :
    ∃ rest, Reference.read? (s.drop i) = some (name, rest) ∧ s.drop i = text ++ rest := by
  obtain ⟨rest, hrest⟩ := h.2
  exact ⟨rest, read?_eq_some.2 ⟨text, h.1, hrest.symm⟩, hrest.symm⟩

/-- A position starts one reference at most. -/
theorem Occurs.unique {s : List Char} {i : ℕ} {text other name name' : List Char}
    (h : Occurs s i text name) (h' : Occurs s i other name') : text = other ∧ name = name' := by
  obtain ⟨rest, hread, hrest⟩ := h.read?
  obtain ⟨rest', hread', hrest'⟩ := h'.read?
  obtain ⟨rfl, rfl⟩ := Prod.mk.inj (Option.some.inj (hread.symm.trans hread'))
  exact ⟨List.append_cancel_right (hrest.symm.trans hrest'), rfl⟩

/-! ### The two searches agree -/

/-- Positions that start no reference can be passed over. -/
theorem occurrences_append {skipped rest : List Char}
    (h : ∀ a b, skipped = a ++ b → b ≠ [] → read? (b ++ rest) = none) :
    occurrences (skipped ++ rest) = occurrences rest := by
  induction skipped with
  | nil => rfl
  | cons c skipped ih =>
    have hc := h [] (c :: skipped) rfl (List.cons_ne_nil _ _)
    rw [List.cons_append] at hc ⊢
    rw [occurrences, hc]
    exact ih fun a b hab hb => h (c :: a) b (by rw [hab]; rfl) hb

theorem names_eq_occurrences (s : List Char) : names s = occurrences s := by
  fun_induction names s with
  | case1 => rfl
  | case2 c s name rest hread ih =>
    obtain ⟨text, href, hs⟩ := read?_eq_some.1 hread
    rw [occurrences, hread, ih]
    rcases text with _ | ⟨c', text⟩
    · obtain ⟨word, -, q, -, q', -, -, h⟩ := href
      simp at h
    · obtain ⟨rfl, rfl⟩ := List.cons.inj hs
      -- behind its first character the reference just read is passed over
      have hskip : occurrences (text ++ rest) = occurrences rest :=
        occurrences_append fun a b hab hb => by
          have hsplit : c :: text = (c :: a) ++ b := by rw [hab]; rfl
          exact read?_inside href hsplit (List.cons_ne_nil _ _) hb
      rw [← hskip]
      rfl
  | case3 c s hread ih => rw [occurrences, hread, ih]

/-- The positions that start a reference, each with the name it refers to. -/
def positions (s : List Char) : List (ℕ × List Char) :=
  (List.range s.length).filterMap fun i => (read? (s.drop i)).map fun found => (i, found.1)

theorem occurrences_eq_positions (s : List Char) : occurrences s = (positions s).map Prod.snd := by
  induction s with
  | nil => rfl
  | cons c s ih =>
    have htail : (positions (c :: s)) = ((read? (c :: s)).map fun found => (0, found.1)).toList ++
        (positions s).map fun p => (p.1 + 1, p.2) := by
      rw [positions, List.length_cons, List.range_succ_eq_map, List.filterMap_cons]
      rw [List.drop_zero, List.filterMap_map, positions, List.map_filterMap]
      rcases read? (c :: s) with _ | found
      · simp [Function.comp_def, Option.map_map]
      · simp [Function.comp_def, Option.map_map]
    rw [htail, occurrences]
    rcases read? (c :: s) with _ | found
    · simp [ih, Function.comp_def]
    · simp [ih, Function.comp_def]

theorem mem_positions {s name : List Char} {i : ℕ} :
    (i, name) ∈ positions s ↔ ∃ text, Occurs s i text name := by
  rw [positions, List.mem_filterMap]
  constructor
  · rintro ⟨j, -, hj⟩
    obtain ⟨⟨found, rest⟩, hread, heq⟩ := Option.map_eq_some_iff.1 hj
    obtain ⟨rfl, rfl⟩ := Prod.mk.inj heq
    obtain ⟨text, href, hs⟩ := read?_eq_some.1 hread
    exact ⟨text, href, hs ▸ List.prefix_append _ _⟩
  · rintro ⟨text, h⟩
    obtain ⟨rest, hread, hrest⟩ := h.read?
    refine ⟨i, List.mem_range.2 ?_, by rw [hread]; rfl⟩
    by_contra hle
    rw [List.drop_eq_nil_of_le (by omega), read?_nil] at hread
    simp at hread

theorem positions_pairwise (s : List Char) :
    (positions s).Pairwise fun a b => a.1 < b.1 := by
  refine List.Pairwise.filterMap _ ?_ List.pairwise_lt_range
  intro i j hij a ha b hb
  obtain ⟨-, -, rfl⟩ := Option.map_eq_some_iff.1 ha
  obtain ⟨-, -, rfl⟩ := Option.map_eq_some_iff.1 hb
  exact hij

/-- The names found in a source are those of all its references, position by position. No other
reading of a position is possible, and no two references overlap. -/
theorem moduleNames_lists_every_occurrence (source : String) :
    (∃ found : List (ℕ × List Char),
      moduleNames source = found.map (fun p => String.ofList p.2) ∧
      found.Pairwise (fun a b => a.1 < b.1) ∧
      ∀ i name, (i, name) ∈ found ↔ ∃ text, Occurs source.toList i text name) ∧
    (∀ i text other name name', Occurs source.toList i text name →
      Occurs source.toList i other name' → text = other ∧ name = name') ∧
    (∀ i j text other name name', Occurs source.toList i text name →
      Occurs source.toList j other name' → i < j → i + text.length ≤ j) := by
  refine ⟨⟨positions source.toList, ?_, positions_pairwise _, fun i name => mem_positions⟩,
    fun i text other name name' h h' => h.unique h', fun i j text other name name' h h' =>
    h.apart h'⟩
  rw [moduleNames, names_eq_occurrences, occurrences_eq_positions, List.map_map]
  rfl

end ImportScan.Reference
