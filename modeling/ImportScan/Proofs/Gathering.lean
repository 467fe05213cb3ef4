import ImportScan.Proofs.Occurrence
import ImportScan.Scan
import Mathlib.Data.List.Basic

/-!
What a list of visits adds up to. The names gathered are those referred to in the texts read, and
each visit counts as one file read, one file skipped or none; errors of the walk count as nothing.
-/

namespace ImportScan

/-- Every name found in a source is one that a collector takes. -/
theorem isModuleName_of_mem_moduleNames {source name : String} (h : name ∈ moduleNames source) :
    isModuleName name = true := by
  rw [moduleNames, Reference.names_eq_occurrences, Reference.occurrences_eq_positions,
    List.map_map] at h
  obtain ⟨⟨i, chars⟩, hfound, rfl⟩ := List.mem_map.1 h
  obtain ⟨text, ⟨word, -, q, q', -, -, hname, -⟩, -⟩ := Reference.mem_positions.1 hfound
  rw [isModuleName]
  simpa using Reference.accepts_iff.2 hname

/-- A module name starts with none of `.`, `/` and `\`, and all its characters are letters, digits
or one of four marks. -/
theorem isModuleName_iff {name : String} : isModuleName name = true ↔
    (∃ c, name.toList.head? = some c ∧ c ∉ ['.', '/', '\\']) ∧
      ∀ c ∈ name.toList, c.isAlphanum = true ∨ c ∈ ['_', '@', '-', '/'] := by
  rw [isModuleName, Reference.accepts_iff]
  constructor
  · intro h
    obtain ⟨c, tail, hname⟩ := List.exists_cons_of_ne_nil h.nonempty
    have hpart := h.parts c (hname ▸ List.mem_cons_self)
    refine ⟨⟨c, by rw [hname]; rfl, ?_⟩, h.parts⟩
    simp only [List.mem_cons, List.not_mem_nil, or_false]
    rintro (rfl | rfl | rfl)
    · exact absurd hpart (by decide)
    · exact h.not_rooted (by rw [hname]; rfl)
    · exact absurd hpart (by decide)
  · rintro ⟨⟨c, hc, hmark⟩, hparts⟩
    refine ⟨?_, ?_, hparts⟩
    · intro hempty
      rw [hempty] at hc
      exact absurd hc (by simp)
    · intro hslash
      obtain rfl := Option.some.inj (hc.symm.trans hslash)
      exact hmark (by decide)

namespace Collector

variable {c : Collector} {x name : String}

/-- A name is taken in unless it is no module name or is there already. -/
theorem insert_snd (c : Collector) (h : isModuleName name = true) :
    (c.insert name).2 = decide (name ∉ c.names) := by
  rw [insert, h, Bool.true_and]
  split_ifs with hn
  · exact hn.symm
  · simpa using hn

theorem mem_insert : x ∈ (c.insert name).1.names ↔
    x ∈ c.names ∨ x = name ∧ isModuleName name = true := by
  rw [insert]
  split_ifs with h
  · simp only [Bool.and_eq_true] at h
    rw [NameSet.mem_insert, or_comm]
    simp [h.1]
  · refine ⟨Or.inl, ?_⟩
    rintro (hx | ⟨rfl, hname⟩)
    · exact hx
    · simpa [hname] using h

theorem insert_counts : (c.insert name).1.scanned = c.scanned ∧
    (c.insert name).1.skipped = c.skipped := by
  rw [insert]
  split_ifs
  · exact ⟨rfl, rfl⟩
  · exact ⟨rfl, rfl⟩

theorem mem_extend {names : List String} : x ∈ (c.extend names).names ↔
    x ∈ c.names ∨ x ∈ names ∧ isModuleName x = true := by
  induction names generalizing c with
  | nil => simp [extend]
  | cons name names ih =>
    have hstep : c.extend (name :: names) = (c.insert name).1.extend names := rfl
    rw [hstep, ih, mem_insert, List.mem_cons, or_assoc]
    refine or_congr Iff.rfl ?_
    constructor
    · rintro (⟨rfl, hx⟩ | ⟨hx, hname⟩)
      · exact ⟨Or.inl rfl, hx⟩
      · exact ⟨Or.inr hx, hname⟩
    · rintro ⟨rfl | hx, hname⟩
      · exact Or.inl ⟨rfl, hname⟩
      · exact Or.inr ⟨hx, hname⟩

theorem extend_counts (names : List String) : (c.extend names).scanned = c.scanned ∧
    (c.extend names).skipped = c.skipped := by
  induction names generalizing c with
  | nil => exact ⟨rfl, rfl⟩
  | cons name names ih =>
    have hstep : c.extend (name :: names) = (c.insert name).1.extend names := rfl
    rw [hstep, ih.1, ih.2]
    exact insert_counts

end Collector

namespace Visit

/-- Whether a text was read. -/
def isScanned : Visit → Bool
  | scanned _ _ => true
  | _ => false

/-- Whether a file gave no text. -/
def isSkipped : Visit → Bool
  | skipped _ _ => true
  | _ => false

/-- Whether a directory could not be opened. -/
def isUnopened : Visit → Bool
  | unopened _ _ => true
  | _ => false

end Visit

namespace Collector

variable {c : Collector} {x : String}

/-- What one visit adds to the names gathered. -/
theorem mem_record {v : Visit} : x ∈ (c.record v).names ↔
    x ∈ c.names ∨ ∃ path source, v = .scanned path source ∧ x ∈ moduleNames source := by
  cases v with
  | scanned path source =>
    have hstep : (c.record (.scanned path source)).names = (c.extend (moduleNames source)).names :=
      rfl
    rw [hstep, mem_extend]
    refine or_congr Iff.rfl ⟨fun h => ⟨path, source, rfl, h.1⟩, ?_⟩
    rintro ⟨path', source', heq, hx⟩
    obtain ⟨rfl, rfl⟩ := Visit.scanned.inj heq
    exact ⟨hx, isModuleName_of_mem_moduleNames hx⟩
  | missing root => simp [record]
  | unopened path cause => simp [record]
  | skipped path cause => simp [record, recordSkipped]

theorem record_counts {v : Visit} :
    (c.record v).scanned = c.scanned + v.isScanned.toNat ∧
      (c.record v).skipped = c.skipped + v.isSkipped.toNat := by
  cases v with
  | scanned path source =>
    have hcounts := extend_counts (c := c) (moduleNames source)
    refine ⟨?_, ?_⟩
    · rw [record, recordScanned, hcounts.1]; rfl
    · rw [record, recordScanned, hcounts.2]; rfl
  | missing root => exact ⟨rfl, rfl⟩
  | unopened path cause => exact ⟨rfl, rfl⟩
  | skipped path cause => exact ⟨rfl, rfl⟩

/-- A directory that could not be opened leaves the collector as it is. -/
theorem record_unopened {v : Visit} (h : v.isUnopened = true) : c.record v = c := by
  cases v with
  | unopened path cause => rfl
  | missing root => rfl
  | skipped path cause => simp [Visit.isUnopened] at h
  | scanned path source => simp [Visit.isUnopened] at h

/-- The names gathered over a run of visits. -/
theorem mem_foldl_record (visits : List Visit) : x ∈ (visits.foldl record c).names ↔
    x ∈ c.names ∨ ∃ path source, .scanned path source ∈ visits ∧ x ∈ moduleNames source := by
  induction visits generalizing c with
  | nil => simp
  | cons v visits ih =>
    rw [List.foldl_cons, ih, mem_record, or_assoc]
    refine or_congr Iff.rfl ?_
    constructor
    · rintro (⟨path, source, rfl, hx⟩ | ⟨path, source, hmem, hx⟩)
      · exact ⟨path, source, List.mem_cons_self, hx⟩
      · exact ⟨path, source, List.mem_cons_of_mem _ hmem, hx⟩
    · rintro ⟨path, source, hmem, hx⟩
      rcases List.mem_cons.1 hmem with rfl | hmem
      · exact Or.inl ⟨path, source, rfl, hx⟩
      · exact Or.inr ⟨path, source, hmem, hx⟩

/-- The counts over a run of visits. -/
theorem foldl_record_counts (visits : List Visit) :
    (visits.foldl record c).scanned = c.scanned + visits.countP Visit.isScanned ∧
      (visits.foldl record c).skipped = c.skipped + visits.countP Visit.isSkipped := by
  induction visits generalizing c with
  | nil => exact ⟨rfl, rfl⟩
  | cons v visits ih =>
    obtain ⟨hscanned, hskipped⟩ := record_counts (c := c) (v := v)
    rw [List.foldl_cons, ih.1, ih.2, hscanned, hskipped, List.countP_cons, List.countP_cons]
    refine ⟨?_, ?_⟩
    · rcases v.isScanned with _ | _
      · simp
      · simp; omega
    · rcases v.isSkipped with _ | _
      · simp
      · simp; omega

end Collector

/-! ### Reports -/

namespace Report

variable {visits others : List Visit}

theorem mem_modules {name : String} : name ∈ (ofVisits visits).modules ↔
    ∃ path source, .scanned path source ∈ visits ∧ name ∈ moduleNames source := by
  have h := Collector.mem_foldl_record (c := {}) (x := name) visits
  rw [or_iff_right NameSet.not_mem_empty] at h
  exact h

theorem modules_ascending (visits : List Visit) :
    (ofVisits visits).modules.Pairwise (· < ·) :=
  (visits.foldl Collector.record {}).names.ascending

theorem filesScanned_ofVisits :
    (ofVisits visits).filesScanned = visits.countP Visit.isScanned := by
  have h := (Collector.foldl_record_counts (c := {}) visits).1
  rw [Nat.zero_add] at h
  exact h

theorem filesSkipped_ofVisits :
    (ofVisits visits).filesSkipped = visits.countP Visit.isSkipped := by
  have h := (Collector.foldl_record_counts (c := {}) visits).2
  rw [Nat.zero_add] at h
  exact h

/-- Directories that could not be opened change nothing in a report. -/
theorem ofVisits_filter : ofVisits (visits.filter fun v => !v.isUnopened) = ofVisits visits := by
  have hgathered : (visits.filter fun v => !v.isUnopened).foldl Collector.record {} =
      visits.foldl Collector.record {} := by
    rw [List.foldl_filter]
    congr
    funext c v
    split_ifs with h
    · rfl
    · exact (Collector.record_unopened (by simpa using h)).symm
  have hmissing : (visits.filter fun v => !v.isUnopened).filterMap Visit.missing? =
      visits.filterMap Visit.missing? := by
    rw [List.filterMap_filter]
    congr
    funext v
    cases v <;> rfl
  rw [ofVisits, ofVisits, hgathered, hmissing]

/-- Sorted lists of the same names are the same. -/
theorem modules_ext {a b : List String} (ha : a.Pairwise (· < ·)) (hb : b.Pairwise (· < ·))
    (h : ∀ name, name ∈ a ↔ name ∈ b) : a = b :=
  congrArg NameSet.toList (NameSet.ext_mem (a := ⟨a, ha⟩) (b := ⟨b, hb⟩) h)

/-- The order of the visits shows in the missing roots alone. -/
theorem ofVisits_perm (h : visits.Perm others)
    (hmissing : visits.filterMap Visit.missing? = others.filterMap Visit.missing?) :
    ofVisits visits = ofVisits others := by
  have hmodules : (ofVisits visits).modules = (ofVisits others).modules := by
    refine modules_ext (modules_ascending _) (modules_ascending _) ?_
    intro name
    rw [mem_modules, mem_modules]
    simp only [h.mem_iff]
  have hscanned : (ofVisits visits).filesScanned = (ofVisits others).filesScanned := by
    rw [filesScanned_ofVisits, filesScanned_ofVisits, h.countP_eq]
  have hskipped : (ofVisits visits).filesSkipped = (ofVisits others).filesSkipped := by
    rw [filesSkipped_ofVisits, filesSkipped_ofVisits, h.countP_eq]
  have hroots : (ofVisits visits).rootsMissing = (ofVisits others).rootsMissing := hmissing
  generalize ofVisits visits = a at *
  generalize ofVisits others = b at *
  cases a
  cases b
  simp_all

end Report

end ImportScan
