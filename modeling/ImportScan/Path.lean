/-!
Paths as text. Joining works on the text alone; equality and file names go by `components`, in
which repeated and trailing slashes and any `.` but a leading one have disappeared. Paths that are
not UTF-8 have no counterpart here, and with them the rule that a file is never a source file when
its extension is no text.
-/

namespace ImportScan.Path

/-- A path is absolute when it starts with a slash. -/
def isAbsolute (path : String) : Bool := path.toList.head? == some '/'

/-- The texts between the slashes of a path, empty ones included. -/
def segments (path : String) : List String := (path.toList.splitOn '/').map String.ofList

/-- `path` seen from `base`: an absolute path stands for itself, any other is put behind `base`,
with a slash in between unless `base` is empty or ends in one. -/
def join (base path : String) : String :=
  if isAbsolute path then path
  else if base.isEmpty || base.toList.getLast? == some '/' then base ++ path
  else base ++ "/" ++ path

/-- What one step of a path says. -/
inductive Component where
  | root
  | here
  | up
  | name (text : String)
  deriving DecidableEq, Repr

/-- The component a segment stands for; empty segments and `.` stand for none. -/
def component? (segment : String) : Option Component :=
  if segment = "" ∨ segment = "." then none
  else if segment = ".." then some .up
  else some (.name segment)

/-- The components of a path: `.` counts only when a relative path starts with it. -/
def components (path : String) : List Component :=
  let steps := (segments path).filterMap component?
  if isAbsolute path then .root :: steps
  else if (segments path).head? = some "." then .here :: steps
  else steps

/-- Paths are the same when their components are; `..` is not resolved. -/
def Same (p q : String) : Prop := components p = components q

instance (p q : String) : Decidable (Same p q) :=
  inferInstanceAs (Decidable (components p = components q))

/-- The last component, when it is a name. -/
def fileName? (path : String) : Option String :=
  match (components path).getLast? with
  | some (.name text) => some text
  | _ => none

/-- The part of a name after its last dot; a dot that comes first is part of the name itself. -/
def extensionOf? (name : List Char) : Option (List Char) :=
  match name.reverse.dropWhile (· ≠ '.') with
  | _ :: _ :: _ => some (name.reverse.takeWhile (· ≠ '.')).reverse
  | _ => none

/-- The extension of the file that a path names. -/
def extension? (path : String) : Option String :=
  ((fileName? path).bind fun name => extensionOf? name.toList).map String.ofList

end ImportScan.Path
