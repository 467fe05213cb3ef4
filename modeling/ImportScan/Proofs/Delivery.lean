import ImportScan.Report.Delivery
import Mathlib.Data.List.TakeDrop

/-!
What a sink takes of the bytes that are written to it, and how the writing ends. However many bytes
a single write takes, all that is written together comes to the same.
-/

namespace ImportScan

/-! ### Bytes of texts -/

theorem toList_loop (bytes : ByteArray) (i : ℕ) (read : List UInt8) :
    ByteArray.toList.loop bytes i read = read.reverse ++ bytes.data.toList.drop i := by
  fun_induction ByteArray.toList.loop bytes i read with
  | case1 i read h ih =>
    have hi : i < bytes.data.toList.length := by simpa using h
    have hget : bytes.get! i = bytes.data.toList[i] := by simp [ByteArray.get!, getElem!_pos, h]
    rw [ih, List.drop_eq_getElem_cons hi, hget, List.reverse_cons, List.append_assoc]
    rfl
  | case2 i read h =>
    have hi : bytes.data.toList.length ≤ i := by simpa using h
    rw [List.drop_eq_nil_of_le hi, List.append_nil]

theorem utf8Bytes_eq (text : String) : utf8Bytes text = text.toUTF8.data.toList := by
  rw [utf8Bytes, ByteArray.toList, toList_loop]
  rfl

theorem utf8Bytes_append (s t : String) : utf8Bytes (s ++ t) = utf8Bytes s ++ utf8Bytes t := by
  simp [utf8Bytes_eq]

theorem utf8Bytes_newline : utf8Bytes "\n" = [10] := by
  rw [utf8Bytes_eq]
  decide

theorem utf8Bytes_line_ne_nil (text : String) : utf8Bytes (text ++ "\n") ≠ [] := by
  rw [utf8Bytes_append, utf8Bytes_newline]
  simp

namespace Sink

/-- What a sink takes of the bytes that are written to it. -/
def accepts (sink : Sink) (bytes : List UInt8) : List UInt8 :=
  match sink.limit with
  | none => bytes
  | some (room, _) => bytes.take (room - sink.taken.length)

/-- The error of a sink that does not take all of the bytes that are written to it. -/
def refusal? (sink : Sink) (bytes : List UInt8) : Option WriteError :=
  match sink.limit with
  | none => none
  | some (room, cause) => if room - sink.taken.length < bytes.length then some cause else none

/-- The error with which writing some bytes and flushing ends, if it does. -/
def failure? (sink : Sink) (bytes : List UInt8) : Option WriteError :=
  (sink.refusal? bytes).or sink.flushError

/-- The result of writing that ends with an error or without. -/
def resultOf : Option WriteError → Except WriteError Unit
  | none => .ok ()
  | some cause => .error cause

/-- The sink after some more bytes. -/
def after (sink : Sink) (bytes : List UInt8) : Sink := { sink with taken := sink.taken ++ bytes }

variable {sink : Sink} {bytes first rest : List UInt8}

@[simp] theorem after_nil (sink : Sink) : sink.after [] = sink := by
  simp [after]

@[simp] theorem after_after (sink : Sink) (first rest : List UInt8) :
    (sink.after first).after rest = sink.after (first ++ rest) := by
  simp [after]

theorem accepts_of_fits (h : sink.refusal? bytes = none) : sink.accepts bytes = bytes := by
  unfold refusal? at h
  unfold accepts
  cases hlimit : sink.limit with
  | none => rfl
  | some limit =>
    simp only [hlimit, ite_eq_right_iff, reduceCtorEq, imp_false, Nat.not_lt] at h ⊢
    exact List.take_of_length_le h

theorem accepts_append (h : sink.refusal? first = none) :
    sink.accepts (first ++ rest) = first ++ (sink.after first).accepts rest := by
  unfold refusal? at h
  simp only [accepts, after]
  cases hlimit : sink.limit with
  | none => rfl
  | some limit =>
    simp only [hlimit, ite_eq_right_iff, reduceCtorEq, imp_false, Nat.not_lt] at h ⊢
    rw [List.take_append, List.take_of_length_le h, List.length_append, Nat.sub_sub]

theorem refusal?_append (h : sink.refusal? first = none) :
    sink.refusal? (first ++ rest) = (sink.after first).refusal? rest := by
  unfold refusal? at h ⊢
  simp only [after]
  cases hlimit : sink.limit with
  | none => rfl
  | some limit =>
    simp only [hlimit, ite_eq_right_iff, reduceCtorEq, imp_false, Nat.not_lt] at h ⊢
    congr 1
    simp only [List.length_append, eq_iff_iff]
    omega

/-- What is not taken of the first bytes keeps out the others. -/
theorem refused_append (rest : List UInt8) {cause : WriteError}
    (h : sink.refusal? first = some cause) :
    sink.refusal? (first ++ rest) = some cause ∧
      sink.accepts (first ++ rest) = sink.accepts first := by
  unfold refusal? at h ⊢
  simp only [accepts]
  cases hlimit : sink.limit with
  | none => simp [hlimit] at h
  | some limit =>
    simp only [hlimit, Option.ite_none_right_eq_some, Option.some.injEq] at h ⊢
    obtain ⟨hfull, rfl⟩ := h
    refine ⟨⟨?_, rfl⟩, ?_⟩
    · rw [List.length_append]
      omega
    · rw [List.take_append_of_le_length (Nat.le_of_lt hfull)]

theorem write_eq_ok {next : Sink} {n : ℕ} (h : sink.write bytes = .ok (next, n)) :
    next = sink.after (bytes.take n) ∧ sink.refusal? (bytes.take n) = none := by
  unfold write at h
  unfold refusal?
  cases hlimit : sink.limit with
  | none =>
    simp only [hlimit] at h ⊢
    obtain ⟨rfl, rfl⟩ := Prod.mk.inj (Except.ok.inj h)
    exact ⟨by rw [after, hlimit], trivial⟩
  | some limit =>
    obtain ⟨room, cause⟩ := limit
    simp only [hlimit] at h ⊢
    split_ifs at h with hroom
    obtain ⟨rfl, rfl⟩ := Prod.mk.inj (Except.ok.inj h)
    refine ⟨by rw [after, hlimit], ?_⟩
    simp only [List.length_take, ite_eq_right_iff, reduceCtorEq, imp_false]
    omega

theorem write_eq_error {cause : WriteError} (h : sink.write bytes = .error cause) :
    sink.accepts bytes = [] ∧ (bytes ≠ [] → sink.refusal? bytes = some cause) := by
  unfold write at h
  unfold accepts refusal?
  cases hlimit : sink.limit with
  | none =>
    simp only [hlimit] at h
    exact absurd h (by simp)
  | some limit =>
    obtain ⟨room, found⟩ := limit
    simp only [hlimit] at h ⊢
    split_ifs at h with hroom
    obtain rfl := Except.error.inj h
    simp only [hroom, List.take_zero, true_and]
    intro hne
    rw [if_pos (List.length_pos_iff.2 hne)]

@[simp] theorem accepts_nil (sink : Sink) : sink.accepts [] = [] := by
  unfold accepts
  split <;> simp

@[simp] theorem refusal?_nil (sink : Sink) : sink.refusal? [] = none := by
  unfold refusal?
  split <;> simp

/-- However bytes are cut into pieces, a sink takes of them what it has room for. -/
theorem writeAll_eq (sink : Sink) (bytes : List UInt8) :
    sink.writeAll bytes = (sink.after (sink.accepts bytes), resultOf (sink.refusal? bytes)) := by
  fun_induction writeAll sink bytes with
  | case1 sink bytes h =>
    obtain rfl := List.isEmpty_iff.1 h
    simp [resultOf]
  | case2 sink bytes h cause hwrite =>
    have hne : bytes ≠ [] := by simpa using h
    obtain ⟨haccepts, hrefusal⟩ := write_eq_error hwrite
    simp [haccepts, hrefusal hne, resultOf]
  | case3 sink bytes h next n hwrite ih =>
    obtain ⟨rfl, hfits⟩ := write_eq_ok hwrite
    rw [ih]
    conv_rhs => rw [← List.take_append_drop n bytes]
    rw [accepts_append hfits, refusal?_append hfits, after_after]

/-- A line is written like its bytes with a newline behind them; only when all of them are taken is
the sink flushed. -/
theorem writeLine_eq (sink : Sink) (text : String) :
    sink.writeLine text = match sink.refusal? (utf8Bytes (text ++ "\n")) with
      | some cause => (sink.after (sink.accepts (utf8Bytes (text ++ "\n"))), .error cause)
      | none => ({ sink.after (utf8Bytes (text ++ "\n")) with flushed := true },
          resultOf sink.flushError) := by
  rw [utf8Bytes_append, utf8Bytes_newline, writeLine, writeAll_eq]
  cases htext : sink.refusal? (utf8Bytes text) with
  | some cause =>
    obtain ⟨hrefusal, haccepts⟩ := refused_append [10] htext
    simp only [hrefusal, haccepts, resultOf]
  | none =>
    simp only [resultOf, accepts_of_fits htext]
    rw [writeAll_eq, refusal?_append htext, accepts_append htext]
    cases hnewline : (sink.after (utf8Bytes text)).refusal? [10] with
    | some cause => simp only [resultOf, after_after]
    | none =>
      simp only [resultOf, accepts_of_fits hnewline, flush, after_after]
      cases hflush : sink.flushError <;> simp [after, hflush]

end Sink

namespace Report

/-- How a delivery ends when the writing ends with an error or without: a reader that has gone away
is no failure. -/
def outcomeOf : Option WriteError → Except WriteError Unit
  | none => .ok ()
  | some cause => if cause = .brokenPipe then .ok () else .error cause

theorem outcomeOf_eq_error {found : Option WriteError} {cause : WriteError} :
    outcomeOf found = .error cause ↔ found = some cause ∧ cause ≠ .brokenPipe := by
  cases found with
  | none => simp [outcomeOf]
  | some given =>
    rw [outcomeOf, Option.some.injEq]
    split_ifs with h
    · refine iff_of_false (by simp) ?_
      rintro ⟨rfl, hne⟩
      exact hne h
    · rw [Except.error.injEq]
      exact ⟨fun heq => ⟨heq, heq ▸ h⟩, fun heq => heq.1⟩

variable {r : Report} {format : Format} {sink : Sink}

theorem deliver_empty (h : r.format format = "") : r.deliver format sink = (sink, .ok ()) := by
  simp [deliver, h]

/-- A report whose line the sink does not take to its end leaves there what the sink has room
for. -/
theorem deliver_refused {cause : WriteError} (h : r.format format ≠ "")
    (hrefusal : sink.refusal? (utf8Bytes (r.format format ++ "\n")) = some cause) :
    r.deliver format sink =
      (sink.after (sink.accepts (utf8Bytes (r.format format ++ "\n"))),
        outcomeOf (some cause)) := by
  simp only [deliver, String.isEmpty_iff, h, if_false, Sink.writeLine_eq, hrefusal]
  rfl

/-- A report whose line the sink takes is followed by a flush. -/
theorem deliver_accepted (h : r.format format ≠ "")
    (hfits : sink.refusal? (utf8Bytes (r.format format ++ "\n")) = none) :
    r.deliver format sink =
      ({ sink.after (utf8Bytes (r.format format ++ "\n")) with flushed := true },
        outcomeOf sink.flushError) := by
  simp only [deliver, String.isEmpty_iff, h, if_false, Sink.writeLine_eq, hfits]
  cases sink.flushError <;> rfl

/-- A report is delivered as its text with a newline behind it, unless that text is empty; it fails
as that line does, but for a reader that has gone away. -/
theorem deliver_eq (r : Report) (format : Format) (sink : Sink) :
    (r.deliver format sink).1.taken = sink.taken ++
        (if r.format format = "" then [] else sink.accepts (utf8Bytes (r.format format ++ "\n"))) ∧
      ∀ cause, (r.deliver format sink).2 = .error cause ↔ r.format format ≠ "" ∧
        sink.failure? (utf8Bytes (r.format format ++ "\n")) = some cause ∧ cause ≠ .brokenPipe := by
  by_cases h : r.format format = ""
  · rw [deliver_empty h]
    simp [h]
  · cases hrefusal : sink.refusal? (utf8Bytes (r.format format ++ "\n")) with
    | some found =>
      rw [deliver_refused h hrefusal, if_neg h, Sink.failure?, hrefusal, Option.some_or]
      exact ⟨rfl, fun cause => by rw [outcomeOf_eq_error, and_iff_right h]⟩
    | none =>
      rw [deliver_accepted h hrefusal, if_neg h, Sink.failure?, hrefusal, Option.none_or,
        Sink.accepts_of_fits hrefusal]
      exact ⟨rfl, fun cause => by rw [outcomeOf_eq_error, and_iff_right h]⟩

/-- What becomes of a report that is delivered to a new sink, however many bytes each write takes.
An empty one leaves the sink alone. If there is room for the line, all of it is taken and flushed,
and only the flush can fail. Otherwise the sink has as many bytes of it as there is room for, and is
not flushed. A reader that has gone away is no failure in any case, so a delivery that does not fail
and leaves something else than the line is that of an empty report, or one to such a reader. -/
theorem deliver_room (r : Report) (format : Format) (limit : Option (ℕ × WriteError))
    (piece : ℕ → ℕ) (flushError : Option WriteError) :
    let sink : Sink := { limit, piece, flushError }
    let line := utf8Bytes (r.format format ++ "\n")
    let after := (r.deliver format sink).1
    let result := (r.deliver format sink).2
    (r.format format = "" → after = sink ∧ result = .ok ()) ∧
    (r.format format ≠ "" → (∀ room cause, limit = some (room, cause) → line.length ≤ room) →
      after.taken = line ∧ after.flushed = true ∧
        result = match flushError with
          | none => .ok ()
          | some cause => if cause = .brokenPipe then .ok () else .error cause) ∧
    (∀ room cause, r.format format ≠ "" → limit = some (room, cause) → room < line.length →
      after.taken = line.take room ∧ after.flushed = false ∧
        result = if cause = .brokenPipe then .ok () else .error cause) ∧
    (result = .ok () → after.taken ≠ line →
      r.format format = "" ∨ ∃ room, limit = some (room, .brokenPipe) ∧ room < line.length) := by
  intro sink line after result
  have hfits (h : r.format format ≠ "")
      (hroom : ∀ room cause, limit = some (room, cause) → line.length ≤ room) :
      after = { sink.after line with flushed := true } ∧ result = outcomeOf flushError := by
    refine Prod.ext_iff.1 (deliver_accepted h ?_)
    rcases limit with _ | ⟨room, cause⟩
    · rfl
    · exact if_neg (Nat.not_lt.2 (hroom room cause rfl))
  have hstops (room : ℕ) (cause : WriteError) (h : r.format format ≠ "")
      (hlimit : limit = some (room, cause)) (hroom : room < line.length) :
      after = sink.after (line.take room) ∧ result = outcomeOf (some cause) := by
    subst hlimit
    have hrefusal : sink.refusal? line = some cause := if_pos hroom
    exact Prod.ext_iff.1 (deliver_refused h hrefusal)
  refine ⟨fun h => ?_, fun h hroom => ?_, fun room cause h hlimit hroom => ?_, fun hok hne => ?_⟩
  · exact Prod.ext_iff.1 (deliver_empty h)
  · obtain ⟨hafter, hresult⟩ := hfits h hroom
    rw [hafter, hresult]
    refine ⟨rfl, rfl, ?_⟩
    cases flushError <;> rfl
  · obtain ⟨hafter, hresult⟩ := hstops room cause h hlimit hroom
    rw [hafter, hresult]
    exact ⟨rfl, rfl, rfl⟩
  · by_cases h : r.format format = ""
    · exact .inl h
    by_cases hroom : ∀ room cause, limit = some (room, cause) → line.length ≤ room
    · rw [(hfits h hroom).1] at hne
      exact absurd rfl hne
    · simp only [not_forall, Nat.not_le, exists_prop] at hroom
      obtain ⟨room, cause, hlimit, hroom⟩ := hroom
      have hresult := (hstops room cause h hlimit hroom).2
      have hpipe : cause = .brokenPipe := by
        by_contra hcause
        rw [outcomeOf_eq_error.2 ⟨rfl, hcause⟩, hok] at hresult
        exact absurd hresult (by simp)
      exact .inr ⟨room, hpipe ▸ hlimit, hroom⟩

theorem deliver_room_sample :
    let r : Report := { modules := ["a", "b"], filesScanned := 1 }
    let sink : Sink := { limit := some (3, .permissionDenied), piece := fun _ => 0 }
    (r.format .list ≠ "" ∧ 3 < (utf8Bytes (r.format .list ++ "\n")).length) ∧
      (r.deliver .list sink).1.taken = utf8Bytes "a\nb" ∧
      (r.deliver .list sink).1.flushed = false ∧
      (r.deliver .list sink).2 = .error .permissionDenied := by
  intro r sink
  have hline : r.format .list ≠ "" ∧ 3 < (utf8Bytes (r.format .list ++ "\n")).length := by
    decide +kernel
  obtain ⟨-, -, hstops, -⟩ := r.deliver_room .list sink.limit sink.piece none
  obtain ⟨htaken, hflushed, hresult⟩ := hstops 3 .permissionDenied hline.1 rfl hline.2
  refine ⟨hline, htaken.trans ?_, hflushed, hresult⟩
  decide +kernel

end Report

end ImportScan
