import ImportScan.Proofs.ConfigFile
import ImportScan.Proofs.FrontOption
import ImportScan.Proofs.RunOutcome
import ImportScan.Proofs.WorkingDirectory

/-!
Leaving out the root. Without a root a run takes the absolute path of the working directory for it.
So `--root .` in front of a command line that gives no root changes all paths that are formed, but
neither what is written to standard output nor the exit code, as long as none of the paths is too
long.
-/

namespace ImportScan

namespace CommandLine

/-- The same options, with `.` for the root. -/
def Options.here (o : Options) : Options := { o with root := some "." }

/-- No other option depends on the root, and it cannot be given again. -/
theorem overlooks_here : Overlooks Options.here fun o => o.root = none where
  set o s value := by
    cases s with
    | root =>
      refine .refused (.repeated Setting.root.display) fun o' h hroot => ?_
      rw [Options.set] at h
      split_ifs at h
      obtain rfl := Except.ok.inj h
      cases hroot
    | exclude => exact .same id
    | ext => exact .same id
    | format =>
      dsimp only [Options.set, Options.here]
      split_ifs
      · exact .stopped _
      · exact .same id
  addRoots o values := by
    rw [Options.addRoots, Options.addRoots]
    split_ifs
    · exact .stopped _
    · exact .same id
  turnOn o w := by
    cases w with
    | failOnEmpty =>
      dsimp only [Options.turnOn, Options.here]
      split_ifs
      · exact .stopped _
      · exact .same id
    | verbose =>
      dsimp only [Options.turnOn, Options.here]
      split_ifs
      · exact .stopped _
      · exact .same id
    | help => exact .stopped _
    | version => exact .stopped _

/-- A setting that has its value may as well have been taken in at once. -/
theorem read_pending {o o' : Options} {s : Setting} {value : String} (h : o.set s value = .ok o')
    (arguments : List String) :
    Progress.read ⟨o, .setting s (some value)⟩ arguments =
      Progress.read ⟨o', .nothing⟩ arguments := by
  have hsettled : Progress.settled ⟨o, .setting s (some value)⟩ =
      Progress.settled ⟨o', .nothing⟩ := h
  have hroot (argument : String) : Progress.addRoot ⟨o, .setting s (some value)⟩ argument =
      Progress.addRoot ⟨o', .nothing⟩ argument := by
    dsimp only [Progress.addRoot]
    rw [hsettled]
  have hplain (argument : String) : Progress.addPlain ⟨o, .setting s (some value)⟩ argument =
      Progress.addPlain ⟨o', .nothing⟩ argument := hroot argument
  have hsetting (s' : Setting) (value' : Option String) :
      Progress.addSetting ⟨o, .setting s (some value)⟩ s' value' =
        Progress.addSetting ⟨o', .nothing⟩ s' value' := by
    rw [Progress.addSetting_eq_bind, Progress.addSetting_eq_bind, hsettled]
  have hswitch (w : Switch) : Progress.addSwitch ⟨o, .setting s (some value)⟩ w =
      Progress.addSwitch ⟨o', .nothing⟩ w := by
    rw [Progress.addSwitch_eq_bind, Progress.addSwitch_eq_bind, hsettled]
  induction arguments with
  | nil => exact hsettled
  | cons argument rest ih =>
    rw [Progress.read, Progress.read]
    cases Token.ofArgument argument with
    | endOfOptions =>
      cases rest with
      | nil => exact hsettled
      | cons root rest =>
        dsimp only
        rw [List.foldlM_cons, List.foldlM_cons, hroot]
    | long name value => simp only [Progress.addLong, hsetting, hswitch]
    | short letters =>
      cases letters with
      | nil => exact ih -- nothing is settled yet
      | cons c letters => simp only [Progress.addShort, hsetting, hswitch]
    | plain => simp only [hplain]

theorem parse_root_here (arguments : List String) : parse ("--root" :: "." :: arguments) =
    (Progress.mapOptions Options.here {}).read arguments := by
  have hroot : Token.ofArgument "--root" = .long "root" none := ofArgument_long .root
  have hdot : Token.ofArgument "." = .plain := by decide
  have hset : Options.set {} .root "." = .ok (Options.here {}) := by decide
  rw [parse, Progress.mapOptions, ← read_pending hset, Progress.read_cons, hroot]
  show Progress.read ⟨{}, .setting .root none⟩ ("." :: arguments) = _
  rw [Progress.read_cons, hdot]
  rfl

end CommandLine

namespace Report

/-- What is written of a report are its names and counts. -/
theorem deliver_congr {r s : Report} (hmodules : r.modules = s.modules)
    (hscanned : r.filesScanned = s.filesScanned) (hskipped : r.filesSkipped = s.filesSkipped)
    (format : Format) (sink : Sink) : r.deliver format sink = s.deliver format sink := by
  have htext : r.format format = s.format format := by
    cases format with
    | list => rw [Report.format, Report.format, hmodules]
    | json => rw [Report.format, Report.format, toJson, toJson, hmodules, hscanned, hskipped]
  rw [deliver, deliver, htext]

end Report

namespace Program

open CommandLine (Options)

variable {fs : FileSystem} {o : Options} {c : Config} {format : Format} {stdout : Sink}

/-- The paths that a run forms once it has its options and knows the form: that of the configuration
file, those of the roots, and those of the entries of all directories entered below them. -/
inductive Forms (fs : FileSystem) (o : Options) : String → Prop
  | config : Forms fs o (Path.join (projectRoot fs o) Config.fileName)
  | root {c : Config} {root : String} (hload : Config.load fs (projectRoot fs o) = .ok c)
      (hroot : root ∈ (effective o c).roots) : Forms fs o (Path.join (projectRoot fs o) root)
  | entry {c : Config} {root name : String} {node : Node} {place : List String}
      {top entries : List (String × Node)} (hload : Config.load fs (projectRoot fs o) = .ok c)
      (hroot : root ∈ (effective o c).roots)
      (htop : fs.entries? (Path.join (projectRoot fs o) root) = some top)
      (hentered : (effective o c).Entered fs (Path.join (projectRoot fs o) root) top place entries)
      (hmem : (name, node) ∈ entries) :
      Forms fs o (Path.below (Path.join (projectRoot fs o) root) (place ++ [name]))

theorem shortFrom_of_forms (hload : Config.load fs (projectRoot fs o) = .ok c)
    (h : ∀ path, Forms fs o path → path.utf8ByteSize < FileSystem.maxPathBytes) :
    ∀ root ∈ (effective o c).roots, (effective o c).ShortFrom fs (projectRoot fs o) root := by
  intro root hroot
  refine ⟨h _ (.root hload hroot), fun top place entries name node htop hentered hmem => ?_⟩
  exact h _ (.entry hload hroot htop hentered hmem)

/-- What the two runs with given options have in common, all paths that they form being short. -/
structure SameFindings (fs : FileSystem) (o : Options) : Prop where
  config : fs.node (Path.join "." Config.fileName) =
    fs.node (Path.join fs.cwdPath Config.fileName)
  loaded : Config.load fs "." = Config.load fs fs.cwdPath
  roots : ∀ c, Config.load fs fs.cwdPath = .ok c → ∀ root ∈ (effective o c).roots,
    fs.resolve (Path.join "." root) true = fs.resolve (Path.join fs.cwdPath root) true
  walk : ∀ c, Config.load fs fs.cwdPath = .ok c →
    List.Forall₂ (Config.Corresponds fs) ((effective o c).walk fs ".")
      ((effective o c).walk fs fs.cwdPath)

theorem projectRoot_of_none (hroot : o.root = none) : projectRoot fs o = fs.cwdPath := by
  rw [projectRoot, hroot]
  rfl

/-- Reports of the same names and counts end a run alike. -/
theorem scanAndReport_congr {o' : Options} {base base' : String} (hbase : projectRoot fs o = base)
    (hbase' : projectRoot fs o' = base') (hempty : o'.failOnEmpty = o.failOnEmpty)
    (hmodules : (c.scan fs base').modules = (c.scan fs base).modules)
    (hscanned : (c.scan fs base').filesScanned = (c.scan fs base).filesScanned)
    (hskipped : (c.scan fs base').filesSkipped = (c.scan fs base).filesSkipped) (stdout : Sink) :
    (scanAndReport fs o' format c stdout).stdout = (scanAndReport fs o format c stdout).stdout ∧
      (scanAndReport fs o' format c stdout).exit = (scanAndReport fs o format c stdout).exit := by
  subst hbase hbase'
  have hdeliver := Report.deliver_congr hmodules hscanned hskipped format stdout
  obtain ⟨htaken, hfails, honly⟩ := scanAndReport_eq fs o format c stdout
  obtain ⟨htaken', hfails', honly'⟩ := scanAndReport_eq fs o' format c stdout
  rw [hdeliver] at htaken' hfails'
  rw [hempty, hscanned, ← hfails] at hfails'
  refine ⟨htaken'.trans htaken.symm, ?_⟩
  omega

section

variable (hwf : fs.root.WellFormed) (hcwd : fs.InDirectory) (hroot : o.root = none)
  (hshort : ∀ path, Forms fs o path ∨ Forms fs o.here path →
    path.utf8ByteSize < FileSystem.maxPathBytes)
include hwf hcwd hroot hshort

theorem node_config_here : fs.node (Path.join "." Config.fileName) =
    fs.node (Path.join fs.cwdPath Config.fileName) := by
  have hfile := hshort _ (.inl .config)
  rw [projectRoot_of_none hroot] at hfile
  exact FileSystem.node_here hwf hcwd (hshort _ (.inr .config)) hfile

theorem load_here : Config.load fs "." = Config.load fs fs.cwdPath :=
  (node_config_here hwf hcwd hroot hshort ▸ Config.load_loads fs ".").unique
    (Config.load_loads fs fs.cwdPath)

/-- Neither run forms a path that is too long from one of the roots. -/
theorem shortFrom_here (hload : Config.load fs fs.cwdPath = .ok c) :
    (∀ root ∈ (effective o c).roots, (effective o c).ShortFrom fs "." root) ∧
      ∀ root ∈ (effective o c).roots, (effective o c).ShortFrom fs fs.cwdPath root := by
  have hhere : Config.load fs (projectRoot fs o.here) = .ok c :=
    (load_here hwf hcwd hroot hshort).trans hload
  refine ⟨shortFrom_of_forms hhere fun path h => hshort path (.inr h), ?_⟩
  rw [← projectRoot_of_none hroot] at hload ⊢
  exact shortFrom_of_forms hload fun path h => hshort path (.inl h)

theorem sameFindings : SameFindings fs o where
  config := node_config_here hwf hcwd hroot hshort
  loaded := load_here hwf hcwd hroot hshort
  roots c hload root hmem := by
    obtain ⟨hhere, hthere⟩ := shortFrom_here hwf hcwd hroot hshort hload
    exact FileSystem.resolve_here hwf hcwd (hhere root hmem).self (hthere root hmem).self true
  walk c hload := by
    obtain ⟨hhere, hthere⟩ := shortFrom_here hwf hcwd hroot hshort hload
    exact Config.walk_here hwf hcwd hhere hthere

theorem execute_here (hformat : Format.ofName? o.formatName = some format) (stdout : Sink) :
    (execute fs o.here stdout).stdout = (execute fs o stdout).stdout ∧
      (execute fs o.here stdout).exit = (execute fs o stdout).exit := by
  have hbase : projectRoot fs o = fs.cwdPath := projectRoot_of_none hroot
  have hdot : projectRoot fs o.here = "." := rfl
  have hsame : Config.load fs (projectRoot fs o.here) = Config.load fs (projectRoot fs o) := by
    rw [hbase, hdot]
    exact load_here hwf hcwd hroot hshort
  have hname : Format.ofName? o.here.formatName = some format := hformat
  cases hload : Config.load fs (projectRoot fs o) with
  | error cause => simp only [execute, hformat, hname, hsame, hload, and_self]
  | ok c =>
    have heffective : effective o.here c = effective o c := rfl
    rw [execute_accepted hformat hload, execute_accepted hname (hsame.trans hload), heffective]
    rw [hbase] at hload
    obtain ⟨hhere, hthere⟩ := shortFrom_here hwf hcwd hroot hshort hload
    obtain ⟨hmodules, hscanned, hskipped⟩ := Config.scan_here hwf hcwd hhere hthere
    exact scanAndReport_congr hbase hdot rfl hmodules hscanned hskipped stdout

end

/-- Options that name no form end a run before any path is formed. -/
theorem execute_here_of_short (hwf : fs.root.WellFormed) (hcwd : fs.InDirectory)
    (hroot : o.root = none) (hshort : ∀ format, Format.ofName? o.formatName = some format →
      ∀ path, Forms fs o path ∨ Forms fs o.here path →
        path.utf8ByteSize < FileSystem.maxPathBytes) (stdout : Sink) :
    (execute fs o.here stdout).stdout = (execute fs o stdout).stdout ∧
      (execute fs o.here stdout).exit = (execute fs o stdout).exit := by
  cases hformat : Format.ofName? o.formatName with
  | none =>
    have hname : Format.ofName? o.here.formatName = none := hformat
    simp only [execute, hformat, hname, and_self]
  | some format => exact execute_here hwf hcwd hroot (hshort format hformat) hformat stdout

/-- Arguments that cannot be used end a run in the same way when they have `--root .` in front. -/
theorem run_usage_here {arguments : List String} {error : CommandLine.UsageError}
    (h : CommandLine.parse arguments = .error (.usage error)) (stdout : Sink) :
    (run fs ("--root" :: "." :: arguments) stdout).stdout = (run fs arguments stdout).stdout ∧
      (run fs ("--root" :: "." :: arguments) stdout).exit = (run fs arguments stdout).exit := by
  obtain ⟨error', herror⟩ := CommandLine.Progress.read_usage CommandLine.overlooks_here h
  rw [← CommandLine.parse_root_here] at herror
  simp only [run, h, herror, and_self]

/-- `--root .` in front of a command line that gives no root changes neither standard output nor
exit code, as long as no path that either run forms is too long: both find the same configuration
file and load the same from it, each root leads to the same place from both, and the two walks yield
the same files, one by one, which are read alike, although all their paths differ. -/
theorem run_root_here (fs : FileSystem) {arguments : List String} (stdout : Sink)
    (hwf : fs.root.WellFormed) (hcwd : fs.InDirectory)
    (hhelp : CommandLine.parse arguments ≠ .error .help)
    (hversion : CommandLine.parse arguments ≠ .error .version)
    (hroot : ∀ o, CommandLine.parse arguments = .ok o → o.root = none)
    (hshort : ∀ o format, CommandLine.parse arguments = .ok o →
      Format.ofName? o.formatName = some format →
      ∀ path, Forms fs o path ∨ Forms fs o.here path →
        path.utf8ByteSize < FileSystem.maxPathBytes) :
    let bare := run fs arguments stdout
    let given := run fs ("--root" :: "." :: arguments) stdout
    given.stdout = bare.stdout ∧ given.exit = bare.exit ∧
      ∀ o, CommandLine.parse arguments = .ok o →
        CommandLine.parse ("--root" :: "." :: arguments) = .ok o.here ∧
          ∀ format, Format.ofName? o.formatName = some format → SameFindings fs o := by
  intro bare given
  cases hparse : CommandLine.parse arguments with
  | error stop =>
    cases stop with
    | help => exact absurd hparse hhelp
    | version => exact absurd hparse hversion
    | usage error =>
      obtain ⟨hstdout, hexit⟩ := @run_usage_here fs arguments error hparse stdout
      exact ⟨hstdout, hexit, fun o ho => by cases ho⟩
  | ok o =>
    have hnone := hroot o hparse
    have hgivenParse : CommandLine.parse ("--root" :: "." :: arguments) = .ok o.here := by
      rw [CommandLine.parse_root_here]
      exact (CommandLine.Progress.read_given CommandLine.overlooks_here hnone arguments {}
        hparse).2
    have hbare : bare = execute fs o stdout := by simp only [bare, run, hparse]
    have hgiven : given = execute fs o.here stdout := by simp only [given, run, hgivenParse]
    have hpaths (format : Format) := hshort o format hparse
    obtain ⟨hstdout, hexit⟩ := execute_here_of_short hwf hcwd hnone hpaths stdout
    rw [hbare, hgiven]
    refine ⟨hstdout, hexit, fun o' ho' => ?_⟩
    obtain rfl := Except.ok.inj ho'
    exact ⟨hgivenParse, fun format hformat =>
      sameFindings hwf hcwd hnone (hpaths format hformat)⟩

/-! ### A run in a project with links -/

/-- The project with links, seen from inside. -/
def linkedHere : FileSystem := { treeOf Config.linkedProject with cwd := ["p"] }

/-- What a run forms that is asked for a link to a directory of files and for a missing root. -/
theorem mem_of_forms_linkedHere {base path : String} (hbase : projectRoot linkedHere o = base)
    (hroots : o.roots = ["web.js", "gone"])
    (htop : linkedHere.entries? (Path.join base "web.js") = some Config.linkedSources)
    (hgone : linkedHere.entries? (Path.join base "gone") = none) (h : Forms linkedHere o path) :
    path ∈ [Path.join base Config.fileName, Path.join base "web.js", Path.join base "gone",
      Path.below (Path.join base "web.js") ["a.js"]] := by
  subst hbase
  have hlisted (c : Config) : (effective o c).roots = ["web.js", "gone"] := by
    rw [effective, hroots]
    rfl
  cases h with
  | config => simp
  | @root c root _ hroot =>
    rw [hlisted] at hroot
    rcases List.mem_pair.1 hroot with rfl | rfl <;> simp
  | @entry c root name node place top entries _ hroot htop' hentered hmem =>
    rw [hlisted] at hroot
    rcases List.mem_pair.1 hroot with rfl | rfl
    · obtain rfl := Option.some.inj (htop.symm.trans htop')
      obtain ⟨rfl, rfl⟩ := hentered.eq_top fun entry hentry inner => by
        rw [List.mem_singleton.1 hentry]
        exact Node.noConfusion
      obtain rfl : name = "a.js" := congrArg Prod.fst (List.mem_singleton.1 hmem)
      simp
    · rw [hgone] at htop'
      cases htop'

/-- A root that is a link with a name like a file's, and one that is missing. -/
theorem run_root_here_sample :
    let arguments := ["web.js", "gone"]
    let bare := run linkedHere arguments .working
    let given := run linkedHere ("--root" :: "." :: arguments) .working
    given.stdout = bare.stdout ∧ given.exit = bare.exit ∧
      List.Forall₂ (Config.Corresponds linkedHere)
        [.ok "./web.js", .ok "./web.js/a.js", .error (.missingRoot "./gone")]
        [.ok "/p/web.js", .ok "/p/web.js/a.js", .error (.missingRoot "/p/gone")] := by
  intro arguments bare given
  have hparse : CommandLine.parse arguments = .ok { roots := arguments } := by decide
  have honly (o : Options) (ho : CommandLine.parse arguments = .ok o) :
      o = { roots := arguments } := Except.ok.inj (ho.symm.trans hparse)
  have hshort (o : Options) (format : Format) (ho : CommandLine.parse arguments = .ok o)
      (_ : Format.ofName? o.formatName = some format) (path : String)
      (h : Forms linkedHere o path ∨ Forms linkedHere o.here path) :
      path.utf8ByteSize < FileSystem.maxPathBytes := by
    have hsizes : ∀ base ∈ ["/p", "."], ∀ path ∈ [Path.join base Config.fileName,
        Path.join base "web.js", Path.join base "gone",
        Path.below (Path.join base "web.js") ["a.js"]],
        path.utf8ByteSize < FileSystem.maxPathBytes := by
      decide
    rw [honly o ho] at h
    rcases h with h | h
    · exact hsizes "/p" (by decide) path (mem_of_forms_linkedHere rfl rfl rfl rfl h)
    · exact hsizes "." (by decide) path (mem_of_forms_linkedHere rfl rfl rfl rfl h)
  have habsent : linkedHere.node (Path.join linkedHere.cwdPath Config.fileName) =
      .error .notFound := rfl
  have hload : Config.load linkedHere linkedHere.cwdPath = .ok {} :=
    (habsent ▸ Config.load_loads linkedHere linkedHere.cwdPath).unique (.absent _)
  obtain ⟨hstdout, hexit, hfindings⟩ := run_root_here linkedHere .working (by decide)
    ⟨Config.linkedProject, rfl⟩ (by decide) (by decide) (fun o ho => honly o ho ▸ rfl) hshort
  exact ⟨hstdout, hexit, ((hfindings _ hparse).2 .list (by decide)).walk {} hload⟩

end Program

end ImportScan
