import ImportScan.NameSet
import ImportScan.Text.ModuleName

/-!
What a scan gathers: the distinct module names met and the number of files read and skipped. Only
module names are taken in, and a name that is there already changes nothing.
-/

namespace ImportScan

/-- The module names gathered so far, with counts of the files read and of those skipped. -/
structure Collector where
  names : NameSet := .empty
  scanned : Nat := 0
  skipped : Nat := 0

namespace Collector

/-- Takes in a name, and tells whether it is a module name that was not there before. -/
def insert (c : Collector) (name : String) : Collector × Bool :=
  if isModuleName name && decide (name ∉ c.names) then
    ({ c with names := c.names.insert name }, true)
  else (c, false)

/-- Takes in each name of a list. -/
def extend (c : Collector) (names : List String) : Collector :=
  names.foldl (fun c name => (c.insert name).1) c

/-- Counts one more file that was read. -/
def recordScanned (c : Collector) : Collector := { c with scanned := c.scanned + 1 }

/-- Counts one more file that could not be read. -/
def recordSkipped (c : Collector) : Collector := { c with skipped := c.skipped + 1 }

/-- The names gathered, in ascending order. -/
def sorted (c : Collector) : List String := c.names.toList

end Collector

end ImportScan
