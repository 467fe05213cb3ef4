import ImportScan.Path

/-!
The report of a scan: the names found and how the files and roots fared.
-/

namespace ImportScan

/-- The names found in ascending order, the number of files read and skipped, and the roots that
are no directories. -/
structure Report where
  modules : List String := []
  filesScanned : Nat := 0
  filesSkipped : Nat := 0
  rootsMissing : List String := []
  deriving DecidableEq, Repr, Inhabited

namespace Report

/-- The report in one line. -/
def summary (r : Report) : String :=
  "Scanned " ++ toString r.filesScanned ++ " files (" ++ toString r.filesSkipped ++
    " skipped), modules found: " ++ toString r.modules.length

/-- Reports are the same when their missing roots are the same paths and all else is equal. -/
def Same (a b : Report) : Prop :=
  a.modules = b.modules ∧ a.filesScanned = b.filesScanned ∧ a.filesSkipped = b.filesSkipped ∧
    a.rootsMissing.map Path.components = b.rootsMissing.map Path.components

instance (a b : Report) : Decidable (Same a b) := by unfold Same; infer_instance

end Report

end ImportScan
