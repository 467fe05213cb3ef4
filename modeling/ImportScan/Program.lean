import ImportScan.CommandLine.Help
import ImportScan.CommandLine.Parse
import ImportScan.Config.Load
import ImportScan.Report.Delivery
import ImportScan.Scan

/-!
The whole program on a tree of files: from arguments and standard output to exit code and messages.
The name of the form is checked first, then the configuration is loaded, and only a failure to
write the report, or the wish to fail on an empty scan, makes the program fail after that.
-/

namespace ImportScan

/-- How a run ends: the exit code, what standard output has taken, and the lines for standard
error. -/
structure Outcome where
  exit : Nat
  stdout : Sink
  stderr : List String

/-- A sink that takes everything. -/
def Sink.working : Sink := {}

/-- A sink on a full device. -/
def Sink.full : Sink := { limit := some (0, .os .noSpace) }

/-- A sink whose reader has gone away. -/
def Sink.closed : Sink := { limit := some (0, .brokenPipe) }

namespace Program

open CommandLine (Options)

/-- The directory whose configuration counts and from which roots are seen. The fallback to `.`
where the working directory cannot be found out is not modelled: a tree of files here always has
one. -/
def projectRoot (fs : FileSystem) (o : Options) : String := o.root.getD fs.cwdPath

/-- What is told after the report was delivered, and whether the run fails all the same. -/
def conclude (o : Options) (report : Report) : Nat × List String :=
  let summary := if o.verbose then [report.summary] else []
  if o.failOnEmpty && report.filesScanned == 0 then (1, summary ++ ["No source files found."])
  else (0, summary)

/-- Scans with a configuration and delivers the report. -/
def scanAndReport (fs : FileSystem) (o : Options) (format : Format) (config : Config)
    (stdout : Sink) : Outcome :=
  let visits := config.visits fs (projectRoot fs o)
  let report := Report.ofVisits visits
  let warnings := if o.verbose then visits.filterMap Visit.warning? else []
  match report.deliver format stdout with
  | (stdout, .error cause) => ⟨1, stdout, warnings ++ ["Error: " ++ cause.message]⟩
  | (stdout, .ok ()) =>
    let (exit, lines) := conclude o report
    ⟨exit, stdout, warnings ++ lines⟩

/-- Runs with the options of a command line. -/
def execute (fs : FileSystem) (o : Options) (stdout : Sink) : Outcome :=
  match Format.ofName? o.formatName with
  | none => ⟨1, stdout, ["Error: " ++ Format.unknownMessage o.formatName]⟩
  | some format =>
    match Config.load fs (projectRoot fs o) with
    | .error cause => ⟨1, stdout, ["Error: " ++ cause.message]⟩
    | .ok config => scanAndReport fs o format (o.amend config) stdout

/-- Runs with the arguments of a command line. Help and version count as success even when they
cannot be written. -/
def run (fs : FileSystem) (arguments : List String) (stdout : Sink) : Outcome :=
  match CommandLine.parse arguments with
  | .error .help => ⟨0, (stdout.writeLine CommandLine.helpText).1, []⟩
  | .error .version => ⟨0, (stdout.writeLine CommandLine.versionText).1, []⟩
  | .error (.usage error) => ⟨2, stdout, [error.message]⟩
  | .ok o => execute fs o stdout

end Program

end ImportScan
