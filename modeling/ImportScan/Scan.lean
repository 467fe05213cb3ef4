import ImportScan.Collector
import ImportScan.FileSystem.Source
import ImportScan.Report
import ImportScan.Text.Reference
import ImportScan.Walk

/-!
A scan visits every result of the walk: each file is read once, its names are gathered, and a file
that cannot be read is counted as skipped. Nothing that fails ends the scan.
-/

namespace ImportScan

/-- How one result of the walk fared. -/
inductive Visit where
  | missing (root : String)
  | unopened (path : String) (cause : OsError)
  | skipped (path : String) (cause : SourceError)
  | scanned (path : String) (source : String)
  deriving DecidableEq, Repr

namespace Visit

/-- The root this visit found missing. -/
def missing? : Visit → Option String
  | missing root => some root
  | _ => none

/-- What there is to tell about a visit that did not lead to a text. -/
def warning? : Visit → Option String
  | missing root => some ("Warning: Skipping root " ++ root ++ ": not a directory")
  | unopened path cause => some ("Warning: " ++ (WalkError.unopened path cause).message)
  | skipped path cause => some ("Warning: Skipping " ++ path ++ ": " ++ cause.message)
  | scanned _ _ => none

end Visit

/-- Takes in what a visit found. -/
def Collector.record (c : Collector) : Visit → Collector
  | .scanned _ source => (c.extend (moduleNames source)).recordScanned
  | .skipped _ _ => c.recordSkipped
  | _ => c

/-- Visits one result of the walk. -/
def FileSystem.visit (fs : FileSystem) : WalkItem → Visit
  | .error (.missingRoot root) => .missing root
  | .error (.unopened path cause) => .unopened path cause
  | .ok path =>
    match fs.readSource path with
    | .ok source => .scanned path source
    | .error cause => .skipped path cause

namespace Config

/-- The visits of a scan in the order of the walk. -/
def visits (c : Config) (fs : FileSystem) (base : String) : List Visit :=
  (c.walk fs base).map fs.visit

end Config

/-- The report on a list of visits. -/
def Report.ofVisits (visits : List Visit) : Report :=
  let gathered := visits.foldl Collector.record {}
  { modules := gathered.sorted
    filesScanned := gathered.scanned
    filesSkipped := gathered.skipped
    rootsMissing := visits.filterMap Visit.missing? }

/-- The report of a scan of the roots of `c` seen from `base`. -/
def Config.scan (c : Config) (fs : FileSystem) (base : String) : Report :=
  .ofVisits (c.visits fs base)

/-- The warnings of the same scan, in the order of the walk. -/
def Config.warnings (c : Config) (fs : FileSystem) (base : String) : List String :=
  (c.visits fs base).filterMap Visit.warning?

end ImportScan
