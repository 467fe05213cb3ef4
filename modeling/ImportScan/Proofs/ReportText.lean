import ImportScan.Proofs.Json.Items
import ImportScan.Report.Format
import Mathlib.Data.List.Forall2

/-!
The JSON form of a report, against the grammar. What is written of a value stands for the data of
that value at any depth (`Value.Writes`); lists and objects are written item by item, so the whole
report follows from its parts.
-/

namespace ImportScan

namespace Json

theorem isBlank_newLine (depth : ℕ) : IsBlank (newLine depth) := by
  intro c hc
  rcases List.mem_cons.1 hc with rfl | hc
  · decide
  · obtain rfl := List.eq_of_mem_replicate hc
    decide

namespace Value

/-- At every depth, what is written of the value stands for the data. -/
def Writes (v : Value) (d : Data) : Prop := ∀ depth, Spells (.value d) (v.pretty depth)

/-- A member is written under its key. -/
def WritesMember (member : String × Value) (m : List ℕ × Data) : Prop :=
  m.1 = unitsOf member.1 ∧ member.2.Writes m.2

theorem writes_string (text : String) : (string text).Writes (.text text) := by
  intro depth
  rw [pretty]
  exact .string (isString_write text.toList)

theorem writes_count (n : ℕ) : (number (.ofNat n)).Writes (.number n) := by
  intro depth
  rw [pretty]
  exact .number (isNumber_ofNat n)

theorem items_prettyElements (depth : ℕ) {vs : List Value} {ds : List Data} {b : List Char}
    (h : List.Forall₂ Writes vs ds) (hb : IsBlank b) :
    Items IsElement ']' false ds (prettyElements depth vs ++ (b ++ [']'])) := by
  induction h with
  | nil => exact .close hb
  | @cons v d _ _ hv _ ih =>
    have helement : IsElement d (v.pretty depth) := hv depth
    rw [prettyElements]
    simpa using Items.item opens_comma (isBlank_newLine depth) helement ih

theorem writes_list {vs : List Value} {ds : List Data} (h : List.Forall₂ Writes vs ds) :
    (list vs).Writes (.list ds) := by
  intro depth
  cases h with
  | nil =>
    rw [pretty]
    exact .emptyList isBlank_nil
  | cons hv hmore =>
    rw [pretty, spells_list_iff_items]
    have hrest := items_prettyElements (depth + 1) hmore (isBlank_newLine depth)
    refine ⟨_, .item rfl (isBlank_newLine (depth + 1)) (hv (depth + 1)) hrest, ?_⟩
    simp

theorem isMember_write {key : String} {v : Value} {m : List ℕ × Data}
    (h : WritesMember (key, v) m) (depth : ℕ) :
    IsMember m (StringLiteral.write key.toList ++ ':' :: ' ' :: v.pretty depth) := by
  have hkey : IsString (StringLiteral.write key.toList) m.1 := h.1 ▸ isString_write key.toList
  exact ⟨_, [], [' '], _, hkey, isBlank_nil, by simp [IsBlank], h.2 depth, rfl⟩

theorem items_prettyMembers (depth : ℕ) {members : List (String × Value)}
    {ms : List (List ℕ × Data)} {b : List Char} (h : List.Forall₂ WritesMember members ms)
    (hb : IsBlank b) :
    Items IsMember '\x7d' false ms (prettyMembers depth members ++ (b ++ ['\x7d'])) := by
  induction h with
  | nil => exact .close hb
  | cons hm _ ih =>
    rw [prettyMembers]
    simpa using Items.item opens_comma (isBlank_newLine depth)
      (isMember_write hm depth) ih

theorem writes_object {members : List (String × Value)} {ms : List (List ℕ × Data)}
    (h : List.Forall₂ WritesMember members ms) : (object members).Writes (.object ms) := by
  intro depth
  cases h with
  | nil =>
    rw [pretty]
    exact .emptyObject isBlank_nil
  | cons hm hmore =>
    rw [pretty, spells_object_iff_items]
    have hrest := items_prettyMembers (depth + 1) hmore (isBlank_newLine depth)
    refine ⟨_, .item rfl (isBlank_newLine (depth + 1)) (isMember_write hm (depth + 1)) hrest, ?_⟩
    simp

end Value

theorem Data.texts_injective {xs ys : List String} (h : Data.texts xs = Data.texts ys) :
    xs = ys := by
  have htext : Function.Injective Data.text := fun _ _ h => unitsOf_injective (Data.string.inj h)
  exact htext.list_map (Data.list.inj h)

end Json

namespace Report

open Json

/-- What the JSON form of a report stands for. -/
def data (r : Report) : Data :=
  .object [
    (unitsOf "modules", .texts r.modules),
    (unitsOf "stats", .object [
      (unitsOf "files_scanned", .number r.filesScanned),
      (unitsOf "files_skipped", .number r.filesSkipped),
      (unitsOf "modules", .number r.modules.length)])]

theorem writes_toJson (r : Report) : r.toJson.Writes r.data := by
  have hmodules : (Value.list (r.modules.map .string)).Writes (.texts r.modules) := by
    refine Value.writes_list ?_
    rw [List.forall₂_map_left_iff, List.forall₂_map_right_iff]
    exact List.forall₂_same.2 fun text _ => Value.writes_string text
  refine Value.writes_object (.cons ⟨rfl, hmodules⟩ (.cons ⟨rfl, ?_⟩ .nil))
  exact Value.writes_object (.cons ⟨rfl, Value.writes_count _⟩
    (.cons ⟨rfl, Value.writes_count _⟩ (.cons ⟨rfl, Value.writes_count _⟩ .nil)))

theorem isText_format (r : Report) : IsText (r.format .json).toList r.data := by
  rw [format, String.toList_ofList, IsText]
  simpa using Spells.element isBlank_nil (writes_toJson r 0) isBlank_nil

/-- The JSON form of a report is a JSON text that stands for the names in order and the counts, and
for nothing else. So it tells everything of a report but the roots that are missing. -/
theorem format_json (r : Report) :
    r.format .json ≠ "" ∧
    (∀ d, IsText (r.format .json).toList d ↔ d = .object [
      (unitsOf "modules", .list (r.modules.map .text)),
      (unitsOf "stats", .object [
        (unitsOf "files_scanned", .number r.filesScanned),
        (unitsOf "files_skipped", .number r.filesSkipped),
        (unitsOf "modules", .number r.modules.length)])]) ∧
    ∀ other : Report, r.format .json = other.format .json ↔
      r.modules = other.modules ∧ r.filesScanned = other.filesScanned ∧
        r.filesSkipped = other.filesSkipped := by
  have htext := isText_format r
  refine ⟨?_, ?_, ?_⟩
  · intro hempty
    rw [hempty] at htext
    obtain ⟨b, c, t, -, -, hs⟩ := Spells.element_head htext
    exact absurd hs (by simp)
  · intro d
    constructor
    · intro h
      exact h.unique htext
    · rintro rfl
      exact htext
  · intro other
    constructor
    · intro h
      have hdata : r.data = other.data := htext.unique (h ▸ isText_format other)
      simp only [data, Data.object.injEq, List.cons.injEq, Prod.mk.injEq, Data.number.injEq,
        Nat.cast_inj, true_and, and_true] at hdata
      exact ⟨Data.texts_injective hdata.1, hdata.2.1, hdata.2.2.1⟩
    · rintro ⟨hmodules, hscanned, hskipped⟩
      simp only [format, toJson, hmodules, hscanned, hskipped]

end Report

end ImportScan
