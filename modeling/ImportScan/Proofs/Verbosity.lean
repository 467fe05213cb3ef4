import ImportScan.Proofs.FrontOption
import ImportScan.Proofs.RunOutcome
import ImportScan.Proofs.ScanReport

/-!
What the verbose flag changes. Put in front of a command line it changes nothing but the lines for
standard error, and adds to these one warning for each result of the walk that leads to no text, in
the order of the walk, and the summary of a report that was delivered.
-/

namespace ImportScan

/-! ### Warnings -/

namespace FileSystem

variable {fs : FileSystem}

/-- What there is to tell about a result of a walk that leads to no text: which root is no
directory, which directory cannot be opened, or which file cannot be read or holds no text. -/
inductive Warns (fs : FileSystem) : WalkItem → String → Prop where
  | missing (root : String) : Warns fs (.error (.missingRoot root))
      ("Warning: Skipping root " ++ root ++ ": not a directory")
  | unopened (path : String) (cause : OsError) : Warns fs (.error (.unopened path cause))
      ("Warning: " ++ ("Failed to walk directory: IO error for operation on " ++ path ++ ": " ++
        cause.message))
  | unreadable {path : String} {cause : OsError} (h : fs.read path = .error cause) :
      Warns fs (.ok path)
        ("Warning: Skipping " ++ path ++ ": " ++ ("Failed to read file: " ++ cause.message))
  | notText {path : String} {bytes : ByteArray} (h : fs.read path = .ok bytes)
      (hbytes : ∀ text : String, bytes ≠ text.toUTF8) :
      Warns fs (.ok path) ("Warning: Skipping " ++ path ++ ": " ++ "File is not valid UTF-8")

/-- Whether a result of a walk leads to no text. -/
def omits (fs : FileSystem) : WalkItem → Bool
  | .error _ => true
  | .ok path => decide ¬fs.IsText path

theorem warns_skipped {path : String} {cause : SourceError}
    (h : fs.readSource path = .error cause) :
    fs.Warns (.ok path) ("Warning: Skipping " ++ path ++ ": " ++ cause.message) := by
  rw [readSource] at h
  cases hread : fs.read path with
  | error cause =>
    simp only [hread] at h
    obtain rfl := Except.error.inj h
    exact .unreadable hread
  | ok bytes =>
    simp only [hread] at h
    cases htext : String.fromUTF8? bytes with
    | some text => simp only [htext] at h; cases h
    | none =>
      simp only [htext] at h
      obtain rfl := Except.error.inj h
      refine .notText hread fun text hbytes => ?_
      rw [fromUTF8?_eq_some.2 hbytes] at htext
      cases htext

/-- A visit warns of a result exactly if that leads to no text. -/
theorem warning?_visit (item : WalkItem) :
    (fs.omits item = false ∧ (fs.visit item).warning? = none) ∨
      (fs.omits item = true ∧ ∃ warning, (fs.visit item).warning? = some warning ∧
        fs.Warns item warning) := by
  rcases item with (root | ⟨path, cause⟩) | path
  · exact .inr ⟨rfl, _, rfl, .missing root⟩
  · exact .inr ⟨rfl, _, rfl, .unopened path cause⟩
  · rw [omits, visit, decide_eq_true_iff, decide_eq_false_iff_not, not_not, isText_iff]
    cases hread : fs.readSource path with
    | ok text => exact .inl ⟨rfl, rfl⟩
    | error cause => exact .inr ⟨Bool.false_ne_true, _, rfl, warns_skipped hread⟩

theorem forall₂_warnings (items : List WalkItem) :
    List.Forall₂ fs.Warns (items.filter fs.omits)
      ((items.map fs.visit).filterMap Visit.warning?) := by
  induction items with
  | nil => exact .nil
  | cons item items ih =>
    rw [List.map_cons]
    rcases fs.warning?_visit item with ⟨homits, hnone⟩ | ⟨homits, warning, hsome, hwarns⟩
    · rw [List.filter_cons_of_neg (by simp [homits]), List.filterMap_cons_none hnone]
      exact ih
    · rw [List.filter_cons_of_pos homits, List.filterMap_cons_some hsome]
      exact .cons hwarns ih

end FileSystem

/-- Each warning is of a missing root, of a directory that cannot be opened or of a file skipped. -/
theorem Visit.length_warnings (visits : List Visit) :
    (visits.filterMap Visit.warning?).length = (visits.filterMap Visit.missing?).length +
      visits.countP Visit.isUnopened + visits.countP Visit.isSkipped := by
  have hone (v : Visit) : v.warning?.toList.length = v.missing?.toList.length +
      (if v.isUnopened then 1 else 0) + (if v.isSkipped then 1 else 0) := by
    cases v <;> rfl
  induction visits with
  | nil => rfl
  | cons v visits ih =>
    simp only [List.filterMap_eq_flatMap_toList, List.flatMap_cons, List.length_append,
      List.countP_cons, hone] at ih ⊢
    omega

theorem Config.length_warnings (c : Config) (fs : FileSystem) (base : String) :
    (c.warnings fs base).length = (c.scan fs base).rootsMissing.length +
      (c.walk fs base).countP WalkItem.isUnopened + (c.scan fs base).filesSkipped := by
  have hunopened : (c.visits fs base).countP Visit.isUnopened =
      (c.walk fs base).countP WalkItem.isUnopened := by
    rw [visits, List.countP_map]
    exact List.countP_congr fun item _ => by rw [Function.comp_apply, isUnopened_visit]
  rw [warnings, Visit.length_warnings, hunopened, scan, Report.filesSkipped_ofVisits]
  rfl

/-! ### Runs -/

namespace Program

open CommandLine (Options)

variable {fs : FileSystem} {o : Options} {stdout : Sink} {format : Format} {config c : Config}

/-- A message that is a warning. -/
def IsWarning (message : String) : Prop := "Warning:".toList <+: message.toList

instance (message : String) : Decidable (IsWarning message) :=
  inferInstanceAs (Decidable ("Warning:".toList <+: message.toList))

theorem not_isWarning_error (text : String) : ¬IsWarning ("Error: " ++ text) := by
  rw [IsWarning, String.toList_append]
  intro h
  exact absurd (List.cons_prefix_cons.1 h).1 (by decide)

/-- What is told after the report was delivered: the summary, with the flag, and the failure of an
empty scan where that counts as one. -/
theorem conclude_snd (o : Options) (report : Report) :
    (conclude o report).2 = (if o.verbose then [report.summary] else []) ++
      if o.failOnEmpty = true ∧ report.filesScanned = 0 then ["No source files found."]
      else [] := by
  unfold conclude
  by_cases h : o.failOnEmpty = true ∧ report.filesScanned = 0 <;> simp [h]

/-- The lines that a scan leaves for standard error: its warnings, with the flag, and then why the
report could not be delivered or what is told after that. -/
theorem scanAndReport_stderr (fs : FileSystem) (o : Options) (format : Format) (config : Config)
    (stdout : Sink) :
    let report := config.scan fs (projectRoot fs o)
    let lines := (scanAndReport fs o format config stdout).stderr
    let warnings := if o.verbose then config.warnings fs (projectRoot fs o) else []
    (∀ cause, (report.deliver format stdout).2 = .error cause →
      lines = warnings ++ ["Error: " ++ cause.message]) ∧
    ((report.deliver format stdout).2 = .ok () →
      lines = warnings ++ (conclude o report).2) := by
  intro report lines warnings
  have hreport : report = Report.ofVisits (config.visits fs (projectRoot fs o)) := rfl
  have hlines : lines = (scanAndReport fs o format config stdout).stderr := rfl
  unfold scanAndReport at hlines
  simp only [← hreport] at hlines
  generalize report.deliver format stdout = delivered at hlines ⊢
  obtain ⟨sink, result⟩ := delivered
  cases result with
  | error cause =>
    refine ⟨fun cause' h => ?_, fun h => (by cases h)⟩
    obtain rfl := Except.error.inj h
    exact hlines
  | ok done => exact ⟨fun cause' h => (by cases h), fun _ => hlines⟩

/-- What the flag leaves as it is. -/
theorem execute_loud (fs : FileSystem) (o : Options) (stdout : Sink) :
    (execute fs o.loud stdout).exit = (execute fs o stdout).exit ∧
      (execute fs o.loud stdout).stdout = (execute fs o stdout).stdout := by
  have hscan (format : Format) (config : Config) :
      (scanAndReport fs o.loud format config stdout).exit =
          (scanAndReport fs o format config stdout).exit ∧
        (scanAndReport fs o.loud format config stdout).stdout =
          (scanAndReport fs o format config stdout).stdout := by
    unfold scanAndReport
    dsimp only
    have hroot : projectRoot fs o.loud = projectRoot fs o := rfl
    rw [hroot]
    generalize Report.ofVisits (config.visits fs (projectRoot fs o)) = report
    generalize report.deliver format stdout = delivered
    obtain ⟨sink, result⟩ := delivered
    cases result with
    | error cause => exact ⟨rfl, rfl⟩
    | ok done =>
      refine ⟨?_, rfl⟩
      show (conclude o.loud report).1 = (conclude o report).1
      rw [conclude_fst, conclude_fst]
      rfl
  unfold execute
  have hname : o.loud.formatName = o.formatName := rfl
  have hroot : projectRoot fs o.loud = projectRoot fs o := rfl
  have hamend (c : Config) : o.loud.amend c = o.amend c := rfl
  rw [hname, hroot]
  cases Format.ofName? o.formatName with
  | none => exact ⟨rfl, rfl⟩
  | some format =>
    cases Config.load fs (projectRoot fs o) with
    | error cause => exact ⟨rfl, rfl⟩
    | ok c => simp only [hamend]; exact hscan _ _

/-- Without the flag nothing is told but errors and that no source files were found. -/
theorem not_isWarning_of_mem (hquiet : o.verbose = false) :
    ∀ message ∈ (execute fs o stdout).stderr, ¬IsWarning message := by
  have herror (text : String) : ∀ message ∈ ["Error: " ++ text], ¬IsWarning message :=
    fun message hmessage => List.mem_singleton.1 hmessage ▸ not_isWarning_error text
  cases hformat : Format.ofName? o.formatName with
  | none =>
    rw [execute, hformat]
    exact herror _
  | some format =>
    cases hload : Config.load fs (projectRoot fs o) with
    | error cause =>
      simp only [execute, hformat, hload]
      exact herror _
    | ok c =>
      rw [execute_accepted hformat hload]
      obtain ⟨hfailed, hdone⟩ := scanAndReport_stderr fs o format (effective o c) stdout
      simp only [hquiet, Bool.false_eq_true, if_false, List.nil_append] at hfailed hdone
      cases hdelivered : (((effective o c).scan fs (projectRoot fs o)).deliver format stdout).2 with
      | error cause =>
        rw [hfailed cause hdelivered]
        exact herror _
      | ok done =>
        rw [hdone hdelivered, conclude_snd, hquiet, if_neg Bool.false_ne_true, List.nil_append]
        split_ifs
        · intro message hmessage
          rw [List.mem_singleton.1 hmessage]
          decide
        · exact fun message hmessage => absurd hmessage List.not_mem_nil

/-- The verbose flag in front of a command line without it changes neither exit code nor standard
output. Without it nothing told is a warning. With it, once form and configuration are accepted, one
warning for each result of the walk that leads to no text comes first, in the order of the walk;
then the summary, if the report was delivered; then what is told without it. -/
theorem run_verbose (fs : FileSystem) {arguments : List String} {o : Options}
    (h : CommandLine.parse arguments = .ok o) (hquiet : o.verbose = false) (stdout : Sink) :
    let quiet := run fs arguments stdout
    let loud := run fs ("--verbose" :: arguments) stdout
    loud.exit = quiet.exit ∧ loud.stdout = quiet.stdout ∧
      (∀ message ∈ quiet.stderr, ¬IsWarning message) ∧
      ∀ format c, Format.ofName? o.formatName = some format →
        Config.load fs (projectRoot fs o) = .ok c →
        let walk := (effective o c).walk fs (projectRoot fs o)
        let report := (effective o c).scan fs (projectRoot fs o)
        let empty := o.failOnEmpty = true ∧ report.filesScanned = 0
        ∃ warnings, List.Forall₂ fs.Warns (walk.filter fs.omits) warnings ∧
          warnings.length = report.rootsMissing.length + walk.countP WalkItem.isUnopened +
            report.filesSkipped ∧
          (∀ cause, (report.deliver format stdout).2 = .error cause →
            quiet.stderr = ["Error: " ++ cause.message] ∧
              loud.stderr = warnings ++ quiet.stderr) ∧
          ((report.deliver format stdout).2 = .ok () →
            quiet.stderr = (if empty then ["No source files found."] else []) ∧
              loud.stderr = warnings ++ report.summary :: quiet.stderr) := by
  intro quiet loud
  have hquietRun : quiet = execute fs o stdout := by
    unfold quiet run
    rw [h]
  have hloudRun : loud = execute fs o.loud stdout := by
    unfold loud run
    rw [CommandLine.parse_verbose h hquiet]
  obtain ⟨hexit, hstdout⟩ := execute_loud fs o stdout
  rw [hquietRun, hloudRun]
  refine ⟨hexit, hstdout, not_isWarning_of_mem hquiet, ?_⟩
  intro format c hformat hload walk report empty
  obtain ⟨hfailed, hdone⟩ := scanAndReport_stderr fs o format (effective o c) stdout
  rw [← execute_accepted hformat hload, hquiet] at hfailed hdone
  obtain ⟨hloudFailed, hloudDone⟩ := scanAndReport_stderr fs o.loud format (effective o c) stdout
  have hloudAccepted : execute fs o.loud stdout =
      scanAndReport fs o.loud format (effective o c) stdout := execute_accepted hformat hload
  rw [← hloudAccepted] at hloudFailed hloudDone
  refine ⟨(effective o c).warnings fs (projectRoot fs o),
    FileSystem.forall₂_warnings walk, Config.length_warnings _ _ _, ?_, ?_⟩
  · intro cause hcause
    rw [hfailed cause hcause]
    exact ⟨rfl, hloudFailed cause hcause⟩
  · intro hdelivered
    have hquietLines := hdone hdelivered
    have hloudLines := hloudDone hdelivered
    rw [conclude_snd] at hquietLines hloudLines
    rw [hquiet] at hquietLines
    rw [hquietLines]
    exact ⟨rfl, hloudLines⟩

/-- A file that cannot be read and a missing root give two warnings, and the summary follows. -/
theorem run_verbose_sample :
    let fs := treeOf [("src", .dir [("a.js", .file "import 'x'".toUTF8), ("b.js", .link "gone")])]
    let arguments := ["-r", "/p", "src", "web"]
    let walk := [.ok "/p/src/a.js", .ok "/p/src/b.js", .error (.missingRoot "/p/web")]
    (run fs ("--verbose" :: arguments) .working).exit = (run fs arguments .working).exit ∧
      ∃ warnings, List.Forall₂ fs.Warns (walk.filter fs.omits) warnings ∧ warnings.length = 2 ∧
        (run fs ("--verbose" :: arguments) .working).stderr =
          warnings ++ ["Scanned 1 files (1 skipped), modules found: 1"] := by
  intro fs arguments walk
  have hparse : CommandLine.parse arguments =
      .ok { roots := ["src", "web"], root := some "/p" } := by decide
  have hload : Config.load fs (projectRoot fs { roots := ["src", "web"], root := some "/p" }) =
      .ok {} := if_neg (by decide +kernel)
  obtain ⟨hexit, -, -, haccepted⟩ := run_verbose fs hparse rfl .working
  obtain ⟨warnings, hwarns, hlength, -, hdone⟩ := haccepted .list {} (by decide) hload
  have hwalk : (effective { roots := ["src", "web"], root := some "/p" } {}).walk fs
      (projectRoot fs { roots := ["src", "web"], root := some "/p" }) = walk := by decide +kernel
  have hreport : (effective { roots := ["src", "web"], root := some "/p" } {}).scan fs
      (projectRoot fs { roots := ["src", "web"], root := some "/p" }) =
      { modules := ["x"], filesScanned := 1, filesSkipped := 1, rootsMissing := ["/p/web"] } := by
    decide +kernel
  rw [hwalk] at hwarns hlength
  rw [hreport] at hlength hdone
  obtain ⟨hquiet, hloud⟩ := hdone (deliver_working _ _)
  rw [hquiet] at hloud
  exact ⟨hexit, warnings, hwarns, hlength, hloud⟩

end Program

end ImportScan
