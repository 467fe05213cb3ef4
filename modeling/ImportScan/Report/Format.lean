import ImportScan.Json.Value
import ImportScan.Report

/-!
The two forms of a report: the names alone, one a line, or a JSON object with the counts.
-/

namespace ImportScan

/-- The forms in which a report can be given. -/
inductive Format where
  | list
  | json
  deriving DecidableEq, Repr

namespace Format

/-- The form that a name stands for, upper and lower case being the same. Only ASCII letters matter
here: no other character becomes one letter of these names in lower case. -/
def ofName? (name : String) : Option Format :=
  let lower := name.toList.map Char.toLower
  if lower = "list".toList then some .list
  else if lower = "json".toList then some .json
  else none

/-- The name of a form, in lower case. -/
def name : Format → String
  | list => "list"
  | json => "json"

/-- Each character of a text is the letter that a word has there, in lower or in upper case. -/
def InAnyCase (text word : List Char) : Prop :=
  text.length = word.length ∧ ∀ p ∈ text.zip word, p.1 = p.2 ∨ p.1 = p.2.toUpper

theorem toLower_eq_iff {c letter : Char} (h : letter.isLower = true) :
    c.toLower = letter ↔ c = letter ∨ c = letter.toUpper := by
  have hletter : 'a'.val ≤ letter.val ∧ letter.val ≤ 'z'.val :=
    (Bool.and_eq_true_iff.1 h).imp of_decide_eq_true of_decide_eq_true
  have hupper : letter.toUpper.val = letter.val + ('A'.val - 'a'.val) := by
    delta Char.toUpper
    rw [dif_pos hletter]
  simp only [Char.ext_iff, hupper]
  by_cases hc : 'A'.val ≤ c.val ∧ c.val ≤ 'Z'.val
  · have hlower : c.toLower.val = c.val + ('a'.val - 'A'.val) := by
      delta Char.toLower
      rw [dif_pos hc]
    grind
  · have hsame : c.toLower = c := dif_neg hc
    grind

theorem map_toLower_eq_iff {text word : List Char} (h : ∀ letter ∈ word, letter.isLower = true) :
    text.map Char.toLower = word ↔ InAnyCase text word := by
  induction text generalizing word with
  | nil => cases word <;> simp [InAnyCase]
  | cons c text ih =>
    cases word with
    | nil => simp [InAnyCase]
    | cons letter word =>
      obtain ⟨hletter, hword⟩ := List.forall_mem_cons.1 h
      simp only [List.map_cons, List.cons.injEq, toLower_eq_iff hletter, ih hword, InAnyCase,
        List.length_cons, Nat.add_right_cancel_iff, List.zip_cons_cons, List.forall_mem_cons]
      exact and_left_comm

/-- A name stands for a form just when it is the name of that form in any mixture of upper and lower
case. -/
theorem ofName?_eq_some_iff {text : String} {form : Format} :
    ofName? text = some form ↔ InAnyCase text.toList form.name.toList := by
  have hlower : form.name.toList.all Char.isLower = true := by cases form <;> decide
  rw [← map_toLower_eq_iff (List.all_eq_true.1 hlower), ofName?]
  cases form with
  | list => simp only [name]; grind
  | json => simp only [name]; grind

/-- No other name stands for any form. -/
theorem ofName?_eq_none_iff {text : String} :
    ofName? text = none ↔ ∀ form : Format, ¬InAnyCase text.toList form.name.toList := by
  simp only [Option.eq_none_iff_forall_ne_some, Ne, ofName?_eq_some_iff]

example : ofName? "LiSt" = some .list ∧ ofName? "lists" = none := by decide

/-- What there is to say about a name that stands for no form. -/
def unknownMessage (name : String) : String := "Unknown format: " ++ name

end Format

namespace Report

/-- The report as a JSON value: the names, and the counts with the number of names. -/
def toJson (r : Report) : Json.Value :=
  let count (n : Nat) : Json.Value := .number (.ofNat n)
  .object [
    ("modules", .list (r.modules.map .string)),
    ("stats", .object [
      ("files_scanned", count r.filesScanned),
      ("files_skipped", count r.filesSkipped),
      ("modules", count r.modules.length)])]

/-- The text of a report in one of the forms. -/
def format (r : Report) : Format → String
  | .list => "\n".intercalate r.modules
  | .json => String.ofList (r.toJson.pretty 0)

end Report

end ImportScan
