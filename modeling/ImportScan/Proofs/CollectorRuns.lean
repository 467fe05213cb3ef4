import ImportScan.Proofs.Gathering
import Mathlib.Data.List.Dedup

/-!
Runs of a collector. After any sequence of operations a collector that was new holds the module
names among those offered to it and the numbers of files recorded (`Reflects`), so neither the order
of the offers nor the way in which they are grouped shows in what it holds.
-/

namespace ImportScan.Collector

/-- What can be done to a collector. -/
inductive Operation where
  | insert (name : String)
  | extend (names : List String)
  | recordScanned
  | recordSkipped
  deriving DecidableEq

namespace Operation

/-- The collector after an operation, and the answer if the operation gives one. -/
def apply (c : Collector) : Operation → Collector × Option Bool
  | insert name => ((c.insert name).1, some (c.insert name).2)
  | extend names => (c.extend names, none)
  | recordScanned => (c.recordScanned, none)
  | recordSkipped => (c.recordSkipped, none)

/-- The names that an operation offers, module names or not. -/
def offers : Operation → List String
  | insert name => [name]
  | extend names => names
  | recordScanned => []
  | recordSkipped => []

end Operation

/-- The collector after a sequence of operations. -/
def run (c : Collector) (ops : List Operation) : Collector :=
  ops.foldl (fun c op => (op.apply c).1) c

/-- The answers to a sequence of operations, one for each. -/
def answers (c : Collector) : List Operation → List (Option Bool)
  | [] => []
  | op :: ops => (op.apply c).2 :: answers (op.apply c).1 ops

/-- The names that a sequence of operations offers. -/
def offered (ops : List Operation) : List String := ops.flatMap Operation.offers

/-- What a collector holds that was new before a sequence of operations. -/
structure Reflects (c : Collector) (ops : List Operation) : Prop where
  names : ∀ name, name ∈ c.names ↔ isModuleName name = true ∧ name ∈ offered ops
  scanned : c.scanned = ops.count .recordScanned
  skipped : c.skipped = ops.count .recordSkipped

variable {c : Collector} {ops more : List Operation} {name : String}

/-! ### The invariant -/

theorem offered_concat (op : Operation) : offered (ops ++ [op]) = offered ops ++ op.offers := by
  simp [offered]

theorem reflects_nil : ({} : Collector).Reflects [] where
  names := fun name => by simp [offered]
  scanned := rfl
  skipped := rfl

/-- An operation takes in the module names that it offers. -/
theorem mem_apply (op : Operation) : name ∈ (op.apply c).1.names ↔
    name ∈ c.names ∨ isModuleName name = true ∧ name ∈ op.offers := by
  cases op with
  | insert offer =>
    rw [Operation.apply, Operation.offers, mem_insert, List.mem_singleton, and_comm]
    exact or_congr_right (and_congr_left fun heq => by rw [heq])
  | extend offers => simp [Operation.apply, Operation.offers, mem_extend, and_comm]
  | recordScanned => simp [Operation.apply, Operation.offers, recordScanned]
  | recordSkipped => simp [Operation.apply, Operation.offers, recordSkipped]

/-- Only the operations that record a file change the counts. -/
theorem apply_counts (op : Operation) :
    (op.apply c).1.scanned = c.scanned + [op].count .recordScanned ∧
      (op.apply c).1.skipped = c.skipped + [op].count .recordSkipped := by
  cases op with
  | insert offer => exact insert_counts
  | extend offers => exact extend_counts offers
  | recordScanned => exact ⟨rfl, rfl⟩
  | recordSkipped => exact ⟨rfl, rfl⟩

theorem Reflects.step (h : c.Reflects ops) (op : Operation) :
    (op.apply c).1.Reflects (ops ++ [op]) where
  names := fun name => by
    rw [mem_apply, h.names, offered_concat, List.mem_append, and_or_left]
  scanned := by rw [(apply_counts op).1, h.scanned, List.count_append]
  skipped := by rw [(apply_counts op).2, h.skipped, List.count_append]

theorem Reflects.run (h : c.Reflects ops) (more : List Operation) :
    (c.run more).Reflects (ops ++ more) := by
  -- the operations still to come are done one by one, each put behind those in `ops`
  induction more generalizing c ops with
  | nil =>
    rw [List.append_nil]
    exact h
  | cons op more ih =>
    rw [List.append_cons]
    exact ih (h.step op)

theorem reflects_run (ops : List Operation) : (run {} ops).Reflects ops :=
  reflects_nil.run ops

/-! ### Answers -/

theorem answers_append (c : Collector) (ops more : List Operation) :
    answers c (ops ++ more) = answers c ops ++ answers (c.run ops) more := by
  induction ops generalizing c with
  | nil => rfl
  | cons op ops ih => rw [List.cons_append, answers, ih]; rfl

theorem length_answers (c : Collector) (ops : List Operation) :
    (answers c ops).length = ops.length := by
  induction ops generalizing c with
  | nil => rfl
  | cons op ops ih => rw [answers, List.length_cons, ih, List.length_cons]

/-- An insertion is answered by whether it offers a module name for the first time. -/
theorem Reflects.insert_snd (h : c.Reflects ops) (name : String) :
    (c.insert name).2 = decide (isModuleName name = true ∧ name ∉ offered ops) := by
  by_cases hname : isModuleName name = true
  · simp [Collector.insert_snd c hname, h.names, hname]
  · simp [insert, hname]

theorem answers_insert (before more : List Operation) (name : String) :
    (answers {} (before ++ .insert name :: more))[before.length]? =
      some (some (decide (isModuleName name = true ∧ name ∉ offered before))) := by
  rw [answers_append, ← length_answers {} before, List.getElem?_append_right (Nat.le_refl _),
    Nat.sub_self, answers, List.getElem?_cons_zero, Operation.apply,
    (reflects_run before).insert_snd]

/-! ### What is left after a run -/

theorem sorted_perm_dedup (ops : List Operation) :
    (run {} ops).sorted.Perm ((offered ops).filter (isModuleName ·)).dedup := by
  refine (List.perm_ext_iff_of_nodup (run {} ops).names.nodup (List.nodup_dedup _)).2 fun name => ?_
  rw [List.mem_dedup, List.mem_filter, and_comm]
  exact (reflects_run ops).names name

/-- After any sequence of operations a collector that was new has the module names offered to it,
in ascending order, and the numbers of files recorded. Each insertion was answered by whether it
offered a module name for the first time. Sequences that offer the same module names leave the same
names. -/
theorem run_gathers (ops : List Operation) :
    let c := run {} ops
    (∀ before name more, ops = before ++ .insert name :: more →
      (answers {} ops)[before.length]? =
        some (some (decide (isModuleName name = true ∧ name ∉ offered before)))) ∧
    c.sorted.Pairwise (· < ·) ∧
    (∀ name, name ∈ c.sorted ↔ isModuleName name = true ∧ name ∈ offered ops) ∧
    c.names.size = c.sorted.length ∧
    c.names.size = ((offered ops).filter (isModuleName ·)).dedup.length ∧
    (c.names.isEmpty = true ↔ c.names.size = 0) ∧
    c.scanned = ops.count .recordScanned ∧ c.skipped = ops.count .recordSkipped ∧
    ∀ others, (∀ name, isModuleName name = true → (name ∈ offered ops ↔ name ∈ offered others)) →
      (run {} others).sorted = c.sorted := by
  intro c
  have h : c.Reflects ops := reflects_run ops
  refine ⟨?_, c.names.ascending, h.names, rfl, (sorted_perm_dedup ops).length_eq, ?_, h.scanned,
    h.skipped, fun others hsame => ?_⟩
  · rintro before name more rfl
    exact answers_insert before more name
  · rw [NameSet.isEmpty, NameSet.size, List.isEmpty_iff, List.length_eq_zero_iff]
  · refine Report.modules_ext (run {} others).names.ascending c.names.ascending fun name => ?_
    rw [sorted, sorted, NameSet.mem_toList, NameSet.mem_toList, (reflects_run others).names,
      h.names]
    exact and_congr_right fun hname => (hsame name hname).symm

theorem run_gathers_sample :
    let ops : List Operation :=
      [.extend ["zlib", "./a"], .recordScanned, .insert "axios", .insert "zlib"]
    let others : List Operation := [.insert "axios", .recordSkipped, .extend ["zlib", "axios"]]
    (∀ name, isModuleName name = true → (name ∈ offered ops ↔ name ∈ offered others)) ∧
      (run {} others).sorted = (run {} ops).sorted ∧
      (answers {} ops)[2]? = some (some true) ∧ (answers {} ops)[3]? = some (some false) := by
  intro ops others
  have hsame : ∀ name, isModuleName name = true → (name ∈ offered ops ↔ name ∈ offered others) := by
    have hoffered : offered ops = ["zlib", "./a", "axios", "zlib"] := rfl
    have hothers : offered others = ["axios", "zlib", "axios"] := rfl
    intro name hname
    have hlocal : name ≠ "./a" := by
      rintro rfl
      exact absurd hname (by decide)
    simp only [hoffered, hothers, List.mem_cons, List.not_mem_nil, or_false, hlocal, false_or]
    tauto
  obtain ⟨hanswers, -, -, -, -, -, -, -, hsorted⟩ := run_gathers ops
  refine ⟨hsame, hsorted others hsame, ?_, ?_⟩
  · exact hanswers [.extend ["zlib", "./a"], .recordScanned] "axios" [.insert "zlib"] rfl
  · exact hanswers [.extend ["zlib", "./a"], .recordScanned, .insert "axios"] "zlib" [] rfl

end ImportScan.Collector
