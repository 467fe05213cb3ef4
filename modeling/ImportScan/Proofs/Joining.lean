import ImportScan.Proofs.Occurrence

/-!
Texts put one behind the other. All names found in the parts are found in the whole, in the same
order. Between those of two parts there is one name more at most, that of a reference which starts
in the first part and ends in the second (`Straddles`).
-/

namespace ImportScan.Reference

/-- A reference to `name` starts in `a` and ends in `b`, when `b` follows `a`. -/
def Straddles (a b name : List Char) : Prop :=
  ∃ left right, left ≠ [] ∧ right ≠ [] ∧ left <:+ a ∧ right <+: b ∧ IsReference (left ++ right) name

/-- The characters that references are made of. -/
def IsInner (c : Char) : Prop :=
  c.isAlphanum = true ∨ c ∈ ['_', '@', '-', '/', '(', ' ', '\x27', '\x22']

instance (c : Char) : Decidable (IsInner c) := by unfold IsInner; infer_instance

variable {a b s name rest : List Char}

/-! ### Reading with more text behind -/

/-- A reference is read the same way whatever follows it. -/
theorem read?_append (h : read? s = some (name, rest)) (more : List Char) :
    read? (s ++ more) = some (name, rest ++ more) := by
  obtain ⟨text, href, rfl⟩ := read?_eq_some.1 h
  exact read?_eq_some.2 ⟨text, href, List.append_assoc text rest more⟩

theorem read?_eq_none_of_append {more : List Char} (h : read? (s ++ more) = none) :
    read? s = none := by
  rw [Option.eq_none_iff_forall_ne_some]
  rintro ⟨name, rest⟩ hread
  rw [read?_append hread more] at h
  exact absurd h (by simp)

/-- A reference takes in all of `s` and goes on behind it when it can be read with `b` behind `s`
only. -/
theorem overruns_iff : (∃ right, right ≠ [] ∧ right <+: b ∧ IsReference (s ++ right) name) ↔
    read? s = none ∧ ∃ rest, read? (s ++ b) = some (name, rest) := by
  constructor
  · rintro ⟨right, hright, ⟨more, rfl⟩, href⟩
    have hwhole : read? (s ++ (right ++ more)) = some (name, more) :=
      read?_eq_some.2 ⟨s ++ right, href, (List.append_assoc s right more).symm⟩
    refine ⟨?_, more, hwhole⟩
    rw [Option.eq_none_iff_forall_ne_some]
    rintro ⟨other, rest⟩ hread
    -- the reference would be read to its end in `s` already, and leave more than `more`
    have hmore := read?_append hread (right ++ more)
    rw [hwhole, Option.some.injEq, Prod.mk.injEq] at hmore
    have hlength := congrArg List.length hmore.2
    simp only [List.length_append] at hlength
    exact hright (List.length_eq_zero_iff.1 (by omega))
  · rintro ⟨hnone, rest, hread⟩
    obtain ⟨text, href, heq⟩ := read?_eq_some.1 hread
    have hapart (more : List Char) : s ≠ text ++ more := fun hs => by
      rw [read?_eq_some.2 ⟨text, href, hs⟩] at hnone
      exact absurd hnone (by simp)
    rcases List.append_eq_append_iff.1 heq with ⟨right, rfl, rfl⟩ | ⟨more, rfl, -⟩
    · refine ⟨right, ?_, List.prefix_append right rest, href⟩
      rintro rfl
      exact hapart [] (by simp)
    · exact absurd rfl (hapart more)

/-! ### References across the seam -/

theorem not_straddles_nil : ¬Straddles [] b name := by
  rintro ⟨left, right, hleft, -, hsuffix, -, -⟩
  exact hleft (List.suffix_nil.1 hsuffix)

theorem straddles_cons {c : Char} : Straddles (c :: a) b name ↔
    (read? (c :: a) = none ∧ ∃ rest, read? (c :: a ++ b) = some (name, rest)) ∨
      Straddles a b name := by
  rw [← overruns_iff]
  constructor
  · rintro ⟨left, right, hleft, hright, hsuffix, hprefix, href⟩
    rcases List.suffix_cons_iff.1 hsuffix with rfl | hsuffix
    · exact .inl ⟨right, hright, hprefix, href⟩
    · exact .inr ⟨left, right, hleft, hright, hsuffix, hprefix, href⟩
  · rintro (⟨right, hright, hprefix, href⟩ | ⟨left, right, hleft, hright, hsuffix, hprefix, href⟩)
    · exact ⟨c :: a, right, List.cons_ne_nil c a, hright, List.suffix_rfl, hprefix, href⟩
    · exact ⟨left, right, hleft, hright, hsuffix.trans (List.suffix_cons c a), hprefix, href⟩

/-- A reference that takes in all of a text and goes on behind it is the only one that touches this
text. -/
theorem occurrences_overrun {c : Char} (hnone : read? (c :: a) = none)
    (hread : read? (c :: a ++ b) = some (name, rest)) :
    occurrences (c :: a ++ b) = name :: occurrences b ∧ occurrences (c :: a) = [] ∧
      ∀ other, ¬Straddles a b other := by
  have hbehind : ∀ skipped tail, a = skipped ++ tail → tail ≠ [] → read? (tail ++ b) = none := by
    obtain ⟨right, -, ⟨more, rfl⟩, href⟩ := overruns_iff.2 ⟨hnone, rest, hread⟩
    rintro skipped tail rfl htail
    have hsplit : c :: (skipped ++ tail) ++ right = (c :: skipped) ++ (tail ++ right) := by simp
    rw [← List.append_assoc]
    exact read?_inside href hsplit (List.cons_ne_nil c skipped) (by simp [htail])
  have hinside : ∀ skipped tail, a = skipped ++ tail → tail ≠ [] → read? (tail ++ []) = none := by
    intro skipped tail hsplit htail
    rw [List.append_nil]
    exact read?_eq_none_of_append (hbehind skipped tail hsplit htail)
  refine ⟨?_, ?_, ?_⟩
  · rw [List.cons_append] at hread ⊢
    rw [occurrences, hread, occurrences_append hbehind]
  · rw [occurrences, hnone, ← List.append_nil a]
    exact occurrences_append hinside
  · rintro other ⟨left, right, hleft, hright, ⟨skipped, rfl⟩, hprefix, href⟩
    obtain ⟨-, more, hmore⟩ := overruns_iff.1 ⟨right, hright, hprefix, href⟩
    rw [hbehind skipped left rfl hleft] at hmore
    exact absurd hmore (by simp)

/-- The names of the whole are those of its two parts, with the name of a reference across the seam
between them if there is one. -/
theorem names_append (a b : List Char) : ∃ across, names (a ++ b) = names a ++ across ++ names b ∧
    across.length ≤ 1 ∧ ∀ name, name ∈ across ↔ Straddles a b name := by
  simp only [names_eq_occurrences]
  induction a with
  | nil => exact ⟨[], rfl, Nat.zero_le 1, fun name => by simp [not_straddles_nil]⟩
  | cons c a ih =>
    obtain ⟨across, heq, hlength, hmem⟩ := ih
    simp only [straddles_cons]
    rcases hread : read? (c :: a) with _ | ⟨found, rest⟩
    · rcases hwhole : read? (c :: a ++ b) with _ | ⟨found, rest⟩
      · -- no reference starts here
        refine ⟨across, ?_, hlength, fun name => by simp [hmem]⟩
        rw [List.cons_append] at hwhole ⊢
        rw [occurrences, occurrences, hread, hwhole]
        exact heq
      · -- the reference that starts here ends in `b`
        obtain ⟨hnames, hnone, hothers⟩ := occurrences_overrun hread hwhole
        refine ⟨[found], ?_, Nat.le_refl 1, fun name => ?_⟩
        · rw [hnames, hnone]
          rfl
        · simp [hothers, eq_comm]
    · -- the reference that starts here ends in `a`
      refine ⟨across, ?_, hlength, fun name => by simp [hmem]⟩
      have hwhole := read?_append hread b
      rw [List.cons_append] at hwhole ⊢
      rw [occurrences, occurrences, hread, hwhole]
      simp only [heq, List.cons_append]

theorem names_append_of_apart (h : ∀ name, ¬Straddles a b name) :
    names (a ++ b) = names a ++ names b := by
  obtain ⟨across, heq, -, hmem⟩ := names_append a b
  have hacross : across = [] :=
    List.eq_nil_iff_forall_not_mem.2 fun name hname => h name ((hmem name).1 hname)
  rw [heq, hacross, List.append_nil]

/-! ### Characters at the seam -/

theorem IsReference.isInner {text : List Char} (h : IsReference text name) {c : Char}
    (hc : c ∈ text) : IsInner c := by
  obtain ⟨word, hword, q, hq, q', hq', hname, rfl⟩ := h
  have hquote {q : Char} (hq : q ∈ ['\x27', '\x22']) : IsInner q :=
    .inr (List.mem_append_right ['_', '@', '-', '/', '(', ' '] hq)
  have hkeywords : (["require(", "from ", "import "].all fun word =>
      word.toList.all (IsInner ·)) = true := by decide
  simp only [List.mem_append, List.mem_cons, List.not_mem_nil, or_false] at hc
  rcases hc with hc | rfl | hc | rfl
  · exact of_decide_eq_true (List.all_eq_true.1 (List.all_eq_true.1 hkeywords word hword) c hc)
  · exact hquote hq
  · exact (hname.parts c hc).imp_right (List.mem_append_left ['(', ' ', '\x27', '\x22'])
  · exact hquote hq'

/-- Both characters at the seam belong to a reference across it. -/
theorem Straddles.seam (h : Straddles a b name) :
    (∃ c, a.getLast? = some c ∧ IsInner c) ∧ ∃ c, b.head? = some c ∧ IsInner c := by
  obtain ⟨left, right, hleft, hright, ⟨skipped, rfl⟩, ⟨more, rfl⟩, href⟩ := h
  refine ⟨⟨left.getLast hleft, ?_, href.isInner ?_⟩, ⟨right.head hright, ?_, href.isInner ?_⟩⟩
  · rw [List.getLast?_append_of_ne_nil _ hleft, List.getLast?_eq_some_getLast hleft]
  · exact List.mem_append_left right (List.getLast_mem hleft)
  · rw [List.head?_append_of_ne_nil _ hright, List.head?_eq_some_head hright]
  · exact List.mem_append_right left (List.head_mem hright)

end ImportScan.Reference

namespace ImportScan

open Reference (Straddles IsInner)

/-! ### Names of joined texts -/

theorem moduleNames_of_apart {a b : String} (h : ∀ name, ¬Straddles a.toList b.toList name) :
    moduleNames (a ++ b) = moduleNames a ++ moduleNames b := by
  simp only [moduleNames, String.toList_append, Reference.names_append_of_apart h, List.map_append]

/-- No reference reaches over a newline. -/
theorem moduleNames_newline (a b : String) :
    moduleNames (a ++ "\n" ++ b) = moduleNames a ++ moduleNames b := by
  have hnewline : ¬IsInner '\n' := by decide
  have hbefore : ∀ name, ¬Straddles a.toList "\n".toList name := fun name h => by
    obtain ⟨-, c, hc, hinner⟩ := h.seam
    obtain rfl := Option.some.inj hc
    exact hnewline hinner
  have hbehind : ∀ name, ¬Straddles (a ++ "\n").toList b.toList name := fun name h => by
    obtain ⟨⟨c, hc, hinner⟩, -⟩ := h.seam
    rw [String.toList_append, List.getLast?_append_of_ne_nil _ (by decide)] at hc
    obtain rfl := Option.some.inj hc
    exact hnewline hinner
  have hnone : moduleNames "\n" = [] := by decide +kernel
  rw [moduleNames_of_apart hbehind, moduleNames_of_apart hbefore, hnone, List.append_nil]

theorem moduleNames_intercalate (texts : List String) :
    moduleNames ("\n".intercalate texts) = texts.flatMap moduleNames := by
  induction texts with
  | nil => decide +kernel
  | cons text texts ih =>
    rw [List.flatMap_cons]
    rcases eq_or_ne texts [] with rfl | hne
    · simp
    · rw [String.intercalate_cons_of_ne_nil hne, moduleNames_newline, ih]

/-- Between the names of two texts there is the name of a reference across the seam, if there is
one, and nothing else. -/
theorem exists_across (a b : String) : ∃ across,
    moduleNames (a ++ b) = moduleNames a ++ across ++ moduleNames b ∧ across.length ≤ 1 ∧
      ∀ name, name ∈ across ↔ Straddles a.toList b.toList name.toList := by
  obtain ⟨across, heq, hlength, hmem⟩ := Reference.names_append a.toList b.toList
  refine ⟨across.map String.ofList, ?_, by simpa using hlength, fun name => ?_⟩
  · simp only [moduleNames, String.toList_append, heq, List.map_append]
  · rw [← hmem, List.mem_map]
    constructor
    · rintro ⟨chars, hchars, rfl⟩
      rwa [String.toList_ofList]
    · exact fun hname => ⟨name.toList, hname, String.ofList_toList⟩

/-- The names found in two texts put together are those of the first, then the name of a reference
across the seam if there is one, then those of the second. So the names of lines are the names of
the text they make up, and no text in front or behind takes a name away or out of its order. -/
theorem moduleNames_append :
    (∀ a b : String, ∃ across, moduleNames (a ++ b) = moduleNames a ++ across ++ moduleNames b ∧
      across.length ≤ 1 ∧
      (∀ name, name ∈ across ↔ Straddles a.toList b.toList name.toList) ∧
      (a = "" ∨ b = "" ∨ (∃ c, a.toList.getLast? = some c ∧ ¬IsInner c) ∨
        (∃ c, b.toList.head? = some c ∧ ¬IsInner c) → across = [])) ∧
    (∀ texts, moduleNames ("\n".intercalate texts) = texts.flatMap moduleNames) ∧
    ∀ before text after, moduleNames text <:+: moduleNames (before ++ text ++ after) := by
  refine ⟨fun a b => ?_, moduleNames_intercalate, fun before text after => ?_⟩
  · obtain ⟨across, heq, hlength, hmem⟩ := exists_across a b
    refine ⟨across, heq, hlength, hmem, fun hseam => ?_⟩
    rw [List.eq_nil_iff_forall_not_mem]
    intro name hname
    obtain ⟨⟨c, hc, hinner⟩, d, hd, hinner'⟩ := ((hmem name).1 hname).seam
    rcases hseam with rfl | rfl | ⟨c', hc', hnot⟩ | ⟨d', hd', hnot⟩
    · simp at hc
    · simp at hd
    · exact hnot (Option.some.inj (hc'.symm.trans hc) ▸ hinner)
    · exact hnot (Option.some.inj (hd'.symm.trans hd) ▸ hinner')
  · obtain ⟨across, heq, -⟩ := exists_across (before ++ text) after
    obtain ⟨across', heq', -⟩ := exists_across before text
    refine ⟨moduleNames before ++ across', across ++ moduleNames after, ?_⟩
    rw [heq, heq']
    simp only [List.append_assoc]

theorem moduleNames_append_sample :
    ("import 'a';".toList.getLast? = some ';' ∧ ¬IsInner ';') ∧
      moduleNames ("import 'a';" ++ "from 'b'") = ["a"] ++ [] ++ ["b"] := by
  have hlast : "import 'a';".toList.getLast? = some ';' ∧ ¬IsInner ';' := by decide
  obtain ⟨across, heq, -, -, hseam⟩ := moduleNames_append.1 "import 'a';" "from 'b'"
  have hfirst : moduleNames "import 'a';" = ["a"] := by decide +kernel
  have hsecond : moduleNames "from 'b'" = ["b"] := by decide +kernel
  rw [hseam (.inr (.inr (.inl ⟨';', hlast⟩))), hfirst, hsecond] at heq
  exact ⟨hlast, heq⟩

/-- A name that neither text has by itself. -/
example : moduleNames ("import 'a'from 're" ++ "act'from 'b'") = ["a", "react", "b"] := by
  decide +kernel

end ImportScan
