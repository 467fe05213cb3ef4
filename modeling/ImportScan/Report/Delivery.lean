import ImportScan.FileSystem.OsError
import ImportScan.Report.Format

/-!
Delivering a report to a sink that takes bytes piece by piece and may stop taking them. A reader
that has gone away is no failure; an empty report is not delivered at all.
-/

namespace ImportScan

/-- Why a sink does not take what it is given. -/
inductive WriteError where
  | brokenPipe
  | permissionDenied
  | writeZero
  | connectionReset
  | unexpectedEof
  | other
  | os (cause : OsError)
  /-- Any other cause that ends the writing, with its wording. -/
  | unlisted (wording : String)
  deriving DecidableEq, Repr

/-- The wording of a write error. -/
def WriteError.message : WriteError → String
  | brokenPipe => "broken pipe"
  | permissionDenied => "permission denied"
  | writeZero => "write zero"
  | connectionReset => "connection reset"
  | unexpectedEof => "unexpected end of file"
  | other => "other error"
  | os cause => cause.message
  | unlisted wording => wording

/-- A sink and what it has taken so far. `limit` gives the bytes it takes in all and the error of
every write after that. A single write that starts after `n` bytes takes at most `piece n + 1`. -/
structure Sink where
  taken : List UInt8 := []
  limit : Option (Nat × WriteError) := none
  piece : Nat → Nat := fun _ => 65535
  flushError : Option WriteError := none
  flushed : Bool := false

namespace Sink

/-- Writes some bytes at least of a text that has some: the sink after that, and the number. -/
def write (sink : Sink) (bytes : List UInt8) : Except WriteError (Sink × Nat) :=
  let most := sink.piece sink.taken.length + 1
  match sink.limit with
  | none => .ok ({ sink with taken := sink.taken ++ bytes.take most }, most)
  | some (room, cause) =>
    let free := room - sink.taken.length
    if free = 0 then .error cause
    else .ok ({ sink with taken := sink.taken ++ bytes.take (min most free) }, min most free)

/-- A write that is accepted takes at least one byte. -/
theorem write_pos {sink after : Sink} {bytes : List UInt8} {n : Nat}
    (h : sink.write bytes = .ok (after, n)) : 0 < n := by
  unfold write at h
  split at h
  · simp only [Except.ok.injEq, Prod.mk.injEq] at h; omega
  · simp only at h
    split at h
    · simp at h
    · simp only [Except.ok.injEq, Prod.mk.injEq] at h; omega

/-- Writes until nothing is left or the sink takes no more. -/
def writeAll (sink : Sink) (bytes : List UInt8) : Sink × Except WriteError Unit :=
  if bytes.isEmpty then (sink, .ok ())
  else
    match _h : sink.write bytes with
    | .error cause => (sink, .error cause)
    | .ok (sink, n) => sink.writeAll (bytes.drop n)
termination_by bytes.length
decreasing_by
  have := write_pos _h
  have : bytes.length ≠ 0 := by simpa using ‹¬bytes.isEmpty›
  simp only [List.length_drop]; omega

/-- Asks the sink to pass on all that it has taken. -/
def flush (sink : Sink) : Sink × Except WriteError Unit :=
  ({ sink with flushed := true },
    match sink.flushError with
    | some cause => .error cause
    | none => .ok ())

end Sink

/-- The bytes of a text. -/
def utf8Bytes (text : String) : List UInt8 := text.toUTF8.toList

/-- Writes a line, then flushes, and stops at the first error. -/
def Sink.writeLine (sink : Sink) (text : String) : Sink × Except WriteError Unit :=
  match sink.writeAll (utf8Bytes text) with
  | (sink, .error cause) => (sink, .error cause)
  | (sink, .ok ()) =>
    match sink.writeAll [10] with
    | (sink, .error cause) => (sink, .error cause)
    | (sink, .ok ()) => sink.flush

/-- Delivers a report with a newline behind it, or nothing when its text is empty. -/
def Report.deliver (r : Report) (format : Format) (sink : Sink) : Sink × Except WriteError Unit :=
  let text := r.format format
  if text.isEmpty then (sink, .ok ())
  else
    match sink.writeLine text with
    | (sink, .error cause) => (sink, if cause = .brokenPipe then .ok () else .error cause)
    | done => done

end ImportScan
