/-!
The texts that describe the program.
-/

namespace ImportScan.CommandLine

/-- The name and version of the program. -/
def versionText : String := "depscan 0.1.0"

/-- How the program is used. -/
def helpText : String := "\n".intercalate [
  "List the external modules imported by a JavaScript/TypeScript source tree",
  "",
  "Usage: depscan [OPTIONS] [ROOTS]...",
  "",
  "Arguments:",
  "  [ROOTS]...  Directories to scan (default: backend and frontend, or `roots` from .depscanrc.json)",
  "",
  "Options:",
  "  -r, --root <ROOT>      Project root used to resolve relative roots and find .depscanrc.json",
  "  -e, --exclude <NAME>   Additional directory name to skip (repeatable)",
  "      --ext <EXT>        Additional file extension to scan, e.g. `cjs` (repeatable)",
  "  -f, --format <FORMAT>  Output format: list, json [default: list]",
  "      --fail-on-empty    Exit with failure when no files were scanned",
  "  -v, --verbose          Report skipped files and roots on stderr",
  "  -h, --help             Print help",
  "  -V, --version          Print version"]

end ImportScan.CommandLine
