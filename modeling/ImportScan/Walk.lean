import ImportScan.Config
import ImportScan.FileSystem.Resolve

/-!
The walk over the directories below each root. Links below a root are taken as files and never
entered, so the walk follows the tree itself and ends. A directory with an excluded name is passed
over with all that is in it; a directory whose path is too long cannot be opened and is an error.
-/

namespace ImportScan

/-- What stops the walk at one place, the rest of it going on. -/
inductive WalkError where
  | missingRoot (root : String)
  | unopened (path : String) (cause : OsError)
  deriving DecidableEq, Repr

/-- The wording of a walk error. -/
def WalkError.message : WalkError → String
  | missingRoot root => "Root is not a directory: " ++ root
  | unopened path cause =>
    "Failed to walk directory: IO error for operation on " ++ path ++ ": " ++ cause.message

/-- One result of a walk: the path of a file to read, or an error. -/
abbrev WalkItem := Except WalkError String

namespace Config

/-- The path as the walk's result, when its extension is one of those taken. -/
def candidate (c : Config) (path : String) : List WalkItem :=
  if c.isSupported path then [.ok path] else []

mutual

/-- The results for an entry `name` at `path`. -/
def walkEntry (c : Config) (name path : String) : Node → List WalkItem
  | .dir entries =>
    if c.isExcludedDir name then []
    else if FileSystem.maxPathBytes ≤ path.utf8ByteSize then
      [.error (.unopened path .nameTooLong)]
    else c.walkEntries path entries
  | .file _ => c.candidate path
  | .link _ => c.candidate path

/-- The results for the entries of the directory at `path`. -/
def walkEntries (c : Config) (path : String) : List (String × Node) → List WalkItem
  | [] => []
  | (name, node) :: rest =>
    c.walkEntry name (Path.join path name) node ++ c.walkEntries path rest

end

/-- The results for a root. A root that is itself a link also counts as a file of that name. -/
def walkRoot (c : Config) (fs : FileSystem) (root : String) : List WalkItem :=
  match fs.entries? root with
  | none => [.error (.missingRoot root)]
  | some entries =>
    (if fs.isLink root then c.candidate root else []) ++ c.walkEntries root entries

/-- The results for all roots, root by root in configured order. -/
def walk (c : Config) (fs : FileSystem) (base : String) : List WalkItem :=
  (c.resolvedRoots base).flatMap (c.walkRoot fs)

/-- The paths that a walk yields, its errors left out. -/
def files (c : Config) (fs : FileSystem) (base : String) : List String :=
  (c.walk fs base).filterMap Except.toOption

end Config

end ImportScan
