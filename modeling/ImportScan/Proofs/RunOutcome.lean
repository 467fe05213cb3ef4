import ImportScan.Proofs.Delivery
import ImportScan.Proofs.Tree
import ImportScan.Program

/-!
How a run ends. The name of the form is looked at before the configuration, and the configuration
before the tree; after that only the writing of the report, or an empty scan where that counts as
failure, can make the run fail, whatever the scan has met.
-/

namespace ImportScan.Program

open CommandLine (Options)

/-! ### Three sinks -/

theorem accepts_working (bytes : List UInt8) : Sink.working.accepts bytes = bytes := rfl

theorem failure?_working (bytes : List UInt8) : Sink.working.failure? bytes = none := rfl

theorem accepts_full (bytes : List UInt8) : Sink.full.accepts bytes = [] := rfl

theorem failure?_full {bytes : List UInt8} (h : bytes ≠ []) :
    Sink.full.failure? bytes = some (.os .noSpace) := by
  simp [Sink.failure?, Sink.refusal?, Sink.full, List.length_pos_iff.2 h]

theorem accepts_closed (bytes : List UInt8) : Sink.closed.accepts bytes = [] := rfl

theorem failure?_closed {bytes : List UInt8} (h : bytes ≠ []) :
    Sink.closed.failure? bytes = some .brokenPipe := by
  simp [Sink.failure?, Sink.refusal?, Sink.closed, List.length_pos_iff.2 h]

/-- A sink that takes everything takes every report. -/
theorem deliver_working (report : Report) (format : Format) :
    (report.deliver format .working).2 = .ok () := by
  cases h : (report.deliver format .working).2 with
  | ok done => rfl
  | error cause =>
    have hfailure := (((report.deliver_eq format .working).2 cause).1 h).2.1
    rw [failure?_working] at hfailure
    cases hfailure

/-! ### The configuration that counts -/

/-- The configuration that counts: the roots of the command line in the place of those configured,
if it has any, and its names and extensions added in order. -/
def effective (o : Options) (c : Config) : Config where
  roots := if o.roots = [] then c.roots else o.roots
  excludeDirs := o.excludes.foldl (fun names name => addNew name names) c.excludeDirs
  extensions := o.exts.foldl (fun exts ext => addNew (Config.dotted ext) exts) c.extensions

theorem foldl_addExcludeDir (names : List String) (c : Config) :
    names.foldl Config.addExcludeDir c = { c with
      excludeDirs := names.foldl (fun names name => addNew name names) c.excludeDirs } := by
  induction names generalizing c with
  | nil => rfl
  | cons name names ih => rw [List.foldl_cons, ih]; rfl

theorem foldl_addExtension (exts : List String) (c : Config) :
    exts.foldl Config.addExtension c = { c with
      extensions :=
        exts.foldl (fun exts ext => addNew (Config.dotted ext) exts) c.extensions } := by
  induction exts generalizing c with
  | nil => rfl
  | cons ext exts ih => rw [List.foldl_cons, ih]; rfl

theorem amend_eq (o : Options) (c : Config) : o.amend c = effective o c := by
  rw [Options.amend, foldl_addExtension, foldl_addExcludeDir, effective]
  cases o.roots <;> rfl

/-! ### Runs -/

/-- What comes after the report fails only where an empty scan counts as failure. -/
theorem conclude_fst (o : Options) (report : Report) :
    (conclude o report).1 = if o.failOnEmpty = true ∧ report.filesScanned = 0 then 1 else 0 := by
  unfold conclude
  by_cases h : o.failOnEmpty = true ∧ report.filesScanned = 0 <;> simp [h]

/-- A scan leaves the report on standard output, and fails where that cannot be delivered or an
empty scan counts as failure. -/
theorem scanAndReport_eq (fs : FileSystem) (o : Options) (format : Format) (config : Config)
    (stdout : Sink) :
    let report := config.scan fs (projectRoot fs o)
    let outcome := scanAndReport fs o format config stdout
    outcome.stdout = (report.deliver format stdout).1 ∧
      (outcome.exit = 1 ↔ (∃ cause, (report.deliver format stdout).2 = .error cause) ∨
        (o.failOnEmpty = true ∧ report.filesScanned = 0)) ∧
      (outcome.exit = 0 ∨ outcome.exit = 1) := by
  intro report outcome
  have hreport : report = Report.ofVisits (config.visits fs (projectRoot fs o)) := rfl
  have houtcome : outcome = scanAndReport fs o format config stdout := rfl
  unfold scanAndReport at houtcome
  simp only [← hreport] at houtcome
  generalize report.deliver format stdout = delivered at houtcome
  obtain ⟨next, result⟩ := delivered
  cases result with
  | error cause => simp [houtcome]
  | ok _ =>
    have hexit : outcome.exit = (conclude o report).1 := by rw [houtcome]
    rw [conclude_fst] at hexit
    refine ⟨by rw [houtcome], ?_, ?_⟩
    · rw [hexit]
      simp
    · rw [hexit]
      split_ifs <;> simp

theorem execute_accepted {fs : FileSystem} {o : Options} {format : Format} {c : Config}
    {stdout : Sink} (hformat : Format.ofName? o.formatName = some format)
    (hload : Config.load fs (projectRoot fs o) = .ok c) :
    execute fs o stdout = scanAndReport fs o format (effective o c) stdout := by
  simp only [execute, hformat, hload, amend_eq]

/-- A run whose form is known and whose configuration can be loaded, on any standard output. -/
theorem run_loaded {fs : FileSystem} {arguments : List String} {o : Options} {format : Format}
    {c : Config} {report : Report} {text : String} {line : List UInt8}
    (h : CommandLine.parse arguments = .ok o)
    (hknown : Format.ofName? o.formatName = some format)
    (hload : Config.load fs (projectRoot fs o) = .ok c)
    (hreport : (effective o c).scan fs (projectRoot fs o) = report)
    (htext : report.format format = text) (hline : utf8Bytes (text ++ "\n") = line)
    (stdout : Sink) :
    (run fs arguments stdout).stdout.taken =
        stdout.taken ++ (if text = "" then [] else stdout.accepts line) ∧
      ((run fs arguments stdout).exit = 1 ↔
        (text ≠ "" ∧ ∃ cause, stdout.failure? line = some cause ∧ cause ≠ .brokenPipe) ∨
          (o.failOnEmpty = true ∧ report.filesScanned = 0)) ∧
      ((run fs arguments stdout).exit = 0 ∨ (run fs arguments stdout).exit = 1) := by
  subst hreport htext hline
  have hscan : run fs arguments stdout = scanAndReport fs o format (effective o c) stdout := by
    rw [run, h]
    exact execute_accepted hknown hload
  obtain ⟨htaken, hexit, honly⟩ := scanAndReport_eq fs o format (effective o c) stdout
  obtain ⟨hdelivered, hfails⟩ :=
    ((effective o c).scan fs (projectRoot fs o)).deliver_eq format stdout
  rw [hscan]
  refine ⟨by rw [htaken]; exact hdelivered, hexit.trans (or_congr_left ?_), honly⟩
  simp only [hfails, exists_and_left]

/-- How a run with usable options ends, for every tree. -/
theorem run_outcome (fs : FileSystem) {arguments : List String} {o : Options}
    (h : CommandLine.parse arguments = .ok o) :
    (Format.ofName? o.formatName = none → ∀ stdout, run fs arguments stdout =
      ⟨1, stdout, ["Error: " ++ Format.unknownMessage o.formatName]⟩) ∧
    (∀ format cause, Format.ofName? o.formatName = some format →
      Config.load fs (projectRoot fs o) = .error cause →
      ∀ stdout, run fs arguments stdout = ⟨1, stdout, ["Error: " ++ cause.message]⟩) ∧
    ∀ format c, Format.ofName? o.formatName = some format →
      Config.load fs (projectRoot fs o) = .ok c →
      let report := (effective o c).scan fs (projectRoot fs o)
      let text := report.format format
      let line := utf8Bytes (text ++ "\n")
      let vain := o.failOnEmpty = true ∧ report.filesScanned = 0
      (∀ stdout : Sink,
        (run fs arguments stdout).stdout.taken =
          stdout.taken ++ (if text = "" then [] else stdout.accepts line) ∧
        ((run fs arguments stdout).exit = 1 ↔
          (text ≠ "" ∧ ∃ cause, stdout.failure? line = some cause ∧ cause ≠ .brokenPipe) ∨ vain) ∧
        ((run fs arguments stdout).exit = 0 ∨ (run fs arguments stdout).exit = 1)) ∧
      (run fs arguments .working).stdout.taken = (if text = "" then [] else line) ∧
      ((run fs arguments .working).exit = 1 ↔ vain) ∧
      (run fs arguments .full).stdout.taken = [] ∧
      ((run fs arguments .full).exit = 1 ↔ text ≠ "" ∨ vain) ∧
      (run fs arguments .closed).stdout.taken = [] ∧
      ((run fs arguments .closed).exit = 1 ↔ vain) := by
  have hrun (stdout : Sink) : run fs arguments stdout = execute fs o stdout := by rw [run, h]
  refine ⟨fun hunknown stdout => ?_, fun format cause hknown hload stdout => ?_, ?_⟩
  · rw [hrun, execute, hunknown]
  · rw [hrun, execute, hknown]
    simp only [hload]
  · intro format c hknown hload report text line vain
    have hall := run_loaded h hknown hload (rfl : _ = report) (rfl : _ = text) (rfl : _ = line)
    have hline : line ≠ [] := utf8Bytes_line_ne_nil text
    refine ⟨hall, ?_, ?_, ?_, ?_, ?_, ?_⟩
    · rw [(hall .working).1, accepts_working]
      rfl
    · rw [(hall .working).2.1]
      simp [failure?_working, vain]
    · rw [(hall .full).1, accepts_full, ite_self]
      rfl
    · rw [(hall .full).2.1]
      simp [failure?_full hline, vain]
    · rw [(hall .closed).1, accepts_closed, ite_self]
      rfl
    · rw [(hall .closed).2.1]
      simp [failure?_closed hline, vain]

theorem run_outcome_sample :
    CommandLine.parse ["-r", "/p", "."] = .ok { roots := ["."], root := some "/p" } ∧
      (run (treeOf sampleProject) ["-r", "/p", "."] .working).stdout.taken = utf8Bytes "x\n" ∧
      (run (treeOf sampleProject) ["-r", "/p", "."] .full).exit = 1 ∧
      (run (treeOf sampleProject) ["-r", "/p", "."] .closed).exit ≠ 1 := by
  have hparse : CommandLine.parse ["-r", "/p", "."] =
      .ok { roots := ["."], root := some "/p" } := by decide
  have hreport : (effective { roots := ["."], root := some "/p" } {}).scan (treeOf sampleProject)
      (projectRoot (treeOf sampleProject) { roots := ["."], root := some "/p" }) =
      { modules := ["x"], filesScanned := 2 } := by decide +kernel
  have hrun := (run_outcome (treeOf sampleProject) hparse).2.2 .list {} (by decide) rfl
  rw [hreport] at hrun
  obtain ⟨-, hworking, -, -, hfull, -, hclosed⟩ := hrun
  refine ⟨hparse, hworking, hfull.2 (.inl (by decide)), ?_⟩
  rw [Ne, hclosed]
  decide

end ImportScan.Program
