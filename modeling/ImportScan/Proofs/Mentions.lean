import ImportScan.Proofs.Gathering
import ImportScan.Proofs.Joining

/-!
References written into a text. Whatever text without quotes stands in front of them, between them
and behind them, even if it ends in the middle of a keyword, the names are found again one by one.
So the names that can be found are the module names, and a collector takes all that are found.
-/

namespace ImportScan

/-- A reference by its parts: a keyword, a quote, a module name and a quote. -/
structure Mention where
  word : String
  opening : Char
  name : String
  closing : Char
  word_mem : word ∈ ["require(", "from ", "import "] := by decide
  opening_mem : opening ∈ ['\x27', '\x22'] := by decide
  closing_mem : closing ∈ ['\x27', '\x22'] := by decide
  isModuleName_name : isModuleName name = true := by decide

/-- The text of a reference. -/
def Mention.text (m : Mention) : String :=
  m.word ++ String.singleton m.opening ++ m.name ++ String.singleton m.closing

/-- A text without quotes. -/
def IsFiller (text : String) : Prop := ∀ c ∈ text.toList, c ∉ ['\x27', '\x22']

instance (text : String) : Decidable (IsFiller text) :=
  decidable_of_iff (text.toList.all (· ∉ ['\x27', '\x22']) = true) (by simp [IsFiller])

/-- The text made of `front` and of references, each with some text behind it. -/
def written (front : String) : List (Mention × String) → String
  | [] => front
  | (m, filler) :: rest => front ++ (m.text ++ written filler rest)

namespace Reference

variable {text name filler rest s : List Char}

theorem names_of_read? (h : read? s = some (name, rest)) : names s = name :: names rest := by
  rcases s with _ | ⟨c, s⟩
  · rw [read?_nil] at h
    exact absurd h (by simp)
  · rw [names]
    split
    · rename_i hread
      obtain ⟨rfl, rfl⟩ := Prod.mk.inj (Option.some.inj (hread.symm.trans h))
      rfl
    · rename_i hread
      rw [hread] at h
      exact absurd h (by simp)

/-- A text without quotes has no names in it. -/
theorem names_filler (h : ∀ c ∈ filler, ¬isQuote c = true) : names filler = [] := by
  rw [names_eq_occurrences, occurrences_eq_positions, List.map_eq_nil_iff,
    List.eq_nil_iff_forall_not_mem]
  rintro ⟨i, name⟩ hfound
  obtain ⟨text, ⟨word, -, q, hq, q', -, -, rfl⟩, hprefix⟩ := mem_positions.1 hfound
  have hmem : q ∈ filler.drop i := hprefix.subset (by simp)
  exact h q (List.mem_of_mem_drop hmem) (isQuote_iff.2 hq)

theorem IsReference.exists_head (h : IsReference text name) :
    ∃ c tail, text = c :: tail ∧ ¬isQuote c = true := by
  obtain ⟨word, hword, q, q', -, -, -, rfl⟩ := isReference_iff.1 h
  obtain ⟨c, tail, rfl⟩ := List.exists_cons_of_ne_nil (keyword_ne_nil hword)
  have hnone : ∀ x ∈ c :: tail, ¬isQuote x = true := List.any_eq_false.1 (keyword_chars _ hword).2
  exact ⟨c, _, rfl, hnone c List.mem_cons_self⟩

/-- No reference starts in a text without quotes and goes on into a reference behind it. -/
theorem not_straddles_filler (hfiller : ∀ c ∈ filler, ¬isQuote c = true)
    (href : IsReference text name) (other : List Char) :
    ¬Straddles filler (text ++ rest) other := by
  rintro ⟨left, right, hleft, -, hsuffix, hprefix, hacross⟩
  obtain ⟨word', hword', p, p', hp, -, -, heq⟩ := isReference_iff.1 hacross
  have hquote : ¬p :: (other ++ [p']) <+: text ++ rest := by
    obtain ⟨c, tail, rfl, hc⟩ := href.exists_head
    intro h
    rw [List.cons_append, List.cons_prefix_cons] at h
    exact hc (h.1 ▸ hp)
  rcases List.append_eq_append_iff.1 heq with ⟨inner, rfl, rfl⟩ | ⟨inner, rfl, hinner⟩
  · -- the keyword ends behind the seam, with `inner`
    rcases eq_or_ne inner [] with rfl | hne
    · exact hquote hprefix
    · obtain ⟨word, hword, q, q', -, -, -, rfl⟩ := isReference_iff.1 href
      have hmem : inner ∈ (left ++ inner).tails := (List.mem_tails _ _).2 (List.suffix_append _ _)
      have hinner : inner <+: word ++ (q :: (name ++ [q']) ++ rest) := by
        rw [← List.append_assoc]
        exact (List.prefix_append _ _).trans hprefix
      have hwhole := (keyword_apart _ hword' inner hmem hne word hword
        (List.prefix_or_prefix_of_prefix hinner (List.prefix_append _ _))).1
      exact hleft (by simpa using hwhole)
  · -- the keyword ends in the filler, so the quote behind it stands there or at the seam
    rcases inner with _ | ⟨c, inner⟩
    · exact hquote (by rwa [← List.nil_append right, ← hinner] at hprefix)
    · obtain ⟨rfl, -⟩ := List.cons.inj hinner
      exact hfiller p (hsuffix.subset (by simp)) hp

/-- Behind a text without quotes a reference is found, and then what is behind it. -/
theorem names_filler_append (hfiller : ∀ c ∈ filler, ¬isQuote c = true)
    (href : IsReference text name) (rest : List Char) :
    names (filler ++ (text ++ rest)) = name :: names rest := by
  rw [names_append_of_apart (not_straddles_filler hfiller href), names_filler hfiller,
    List.nil_append]
  exact names_of_read? (read?_eq_some.2 ⟨text, href, rfl⟩)

end Reference

/-! ### Reading back what was written -/

theorem Mention.isReference (m : Mention) : Reference.IsReference m.text.toList m.name.toList := by
  refine ⟨m.word, m.word_mem, m.opening, m.opening_mem, m.closing, m.closing_mem,
    Reference.accepts_iff.1 m.isModuleName_name, ?_⟩
  simp [Mention.text]

theorem IsFiller.not_isQuote {text : String} (h : IsFiller text) :
    ∀ c ∈ text.toList, ¬Reference.isQuote c = true :=
  fun c hc hquote => h c hc (Reference.isQuote_iff.1 hquote)

theorem moduleNames_written {front : String} {passages : List (Mention × String)}
    (hfront : IsFiller front) (hpassages : ∀ p ∈ passages, IsFiller p.2) :
    moduleNames (written front passages) = passages.map fun p => p.1.name := by
  induction passages generalizing front with
  | nil => rw [written, moduleNames, Reference.names_filler hfront.not_isQuote]; rfl
  | cons p passages ih =>
    obtain ⟨m, filler⟩ := p
    obtain ⟨hfiller, hrest⟩ := List.forall_mem_cons.1 hpassages
    have hnames := Reference.names_filler_append hfront.not_isQuote m.isReference
      (written filler passages).toList
    rw [written, moduleNames, String.toList_append, String.toList_append, hnames, List.map_cons,
      List.map_cons, String.ofList_toList, ← ih hfiller hrest]
    rfl

/-! ### The names that can be found -/

theorem exists_source_iff {name : String} :
    (∃ source, name ∈ moduleNames source) ↔ isModuleName name = true := by
  constructor
  · rintro ⟨source, h⟩
    exact isModuleName_of_mem_moduleNames h
  · intro h
    let m : Mention :=
      { word := "from ", opening := '\x27', name, closing := '\x27', isModuleName_name := h }
    have hempty : IsFiller "" := fun c hc => absurd hc (by simp)
    have hnames : moduleNames (written "" [(m, "")]) = [name] :=
      moduleNames_written hempty (by simpa using hempty)
    exact ⟨written "" [(m, "")], hnames ▸ List.mem_cons_self⟩

/-- The names that can be found in a text are the module names, so a collector takes in all of those
that are found in a source. References with any text without quotes in front of them, between them
and behind them are found one by one, in order. -/
theorem moduleName_round_trip :
    (∀ name, (∃ source, name ∈ moduleNames source) ↔ isModuleName name = true) ∧
    (∀ name, isModuleName name = true ↔
      (∃ c, name.toList.head? = some c ∧ c ∉ ['.', '/', '\\']) ∧
        ∀ c ∈ name.toList, c.isAlphanum = true ∨ c ∈ ['_', '@', '-', '/']) ∧
    (∀ (c : Collector) source name, name ∈ (c.extend (moduleNames source)).names ↔
      name ∈ c.names ∨ name ∈ moduleNames source) ∧
    ∀ front (passages : List (Mention × String)), IsFiller front →
      (∀ p ∈ passages, IsFiller p.2) →
      moduleNames (written front passages) = passages.map fun p => p.1.name := by
  refine ⟨fun name => exists_source_iff, fun name => isModuleName_iff, fun c source name => ?_,
    fun front passages => moduleNames_written⟩
  rw [Collector.mem_extend]
  exact or_congr_right (and_iff_left_of_imp isModuleName_of_mem_moduleNames)

theorem moduleName_round_trip_sample :
    let first : Mention :=
      { word := "import ", opening := '\x22', name := "@a/b", closing := '\x27' }
    let other : Mention := { word := "from ", opening := '\x27', name := "x", closing := '\x27' }
    let passages := [(first, ""), (other, "require(fr"), (other, "import ")]
    (IsFiller "from " ∧ ∀ p ∈ passages, IsFiller p.2) ∧
      moduleNames "from import \x22@a/b'from 'x'require(frfrom 'x'import " =
        ["@a/b", "x", "x"] := by
  intro first other passages
  have hfillers : IsFiller "from " ∧ ∀ p ∈ passages, IsFiller p.2 := by decide
  exact ⟨hfillers, moduleName_round_trip.2.2.2 "from " passages hfillers.1 hfillers.2⟩

end ImportScan
