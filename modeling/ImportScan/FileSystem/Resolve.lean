import ImportScan.FileSystem.Node
import ImportScan.FileSystem.OsError
import ImportScan.Path

/-!
Finding what a path stands for. A path is followed segment by segment from the root or from the
working directory; links are followed as they are met, at most `maxLinks` of them in one path.
-/

namespace ImportScan

/-- A tree of files and the place in it where relative paths start. -/
structure FileSystem where
  root : Node
  cwd : List String

/-- A place in the tree: the entries passed on the way down, the last one first. -/
abbrev Trail := List (String × Node)

/-- The node a trail ends at. -/
def Trail.node (root : Node) : Trail → Node
  | [] => root
  | (_, node) :: _ => node

/-- The names from the root down to the end of a trail. -/
def Trail.names (trail : Trail) : List String := (trail.map Prod.fst).reverse

namespace FileSystem

/-- A path of this many bytes or more is refused. -/
def maxPathBytes : Nat := 4096

/-- A name of more than this many bytes is refused. -/
def maxNameBytes : Nat := 255

/-- The number of links that one path may lead through. -/
def maxLinks : Nat := 40

/-- Follows segments from a trail, as far as no link has to be followed: `onLink` goes on where one
does. A link that is the last segment is followed only if `followLast` says so. Empty segments and
`.` stay in place, but only a directory has them. -/
def step (root : Node) (followLast : Bool) (onLink : Trail → List String → Except OsError Trail)
    (trail : Trail) : List String → Except OsError Trail
  | [] => .ok trail
  | name :: rest =>
    match trail.node root with
    | .dir entries =>
      if name = "" ∨ name = "." then step root followLast onLink trail rest
      else if name = ".." then step root followLast onLink trail.tail rest
      else if maxNameBytes < name.utf8ByteSize then .error .nameTooLong
      else
        match entries.lookup name with
        | none => .error .notFound
        | some (.link target) =>
          if rest.isEmpty && !followLast then .ok ((name, .link target) :: trail)
          else
            onLink (if Path.isAbsolute target then [] else trail) (Path.segments target ++ rest)
        | some node => step root followLast onLink ((name, node) :: trail) rest
    | _ => .error .notDirectory

/-- Follows segments from a trail through as many links as are given, at most. -/
def follow (root : Node) (followLast : Bool) : Nat → Trail → List String → Except OsError Trail
  | 0 => step root followLast fun _ _ => .error .tooManyLinks
  | links + 1 => step root followLast (follow root followLast links)

/-- The trail to the working directory. -/
def cwdTrail (fs : FileSystem) : Except OsError Trail :=
  follow fs.root true maxLinks [] fs.cwd

/-- The trail to what a path stands for. A NUL character is refused before anything else. -/
def resolve (fs : FileSystem) (path : String) (followLast : Bool) : Except OsError Trail :=
  if path.toList.contains '\x00' then .error .nulInPath
  else if maxPathBytes ≤ path.utf8ByteSize then .error .nameTooLong
  else if path.isEmpty then .error .notFound
  else if Path.isAbsolute path then
    follow fs.root followLast maxLinks [] (Path.segments path)
  else do
    follow fs.root followLast maxLinks (← fs.cwdTrail) (Path.segments path)

/-- What a path stands for, links followed. -/
def node (fs : FileSystem) (path : String) : Except OsError Node :=
  (fs.resolve path true).map (Trail.node fs.root)

/-- Whether a path leads to something, links followed. -/
def pathExists (fs : FileSystem) (path : String) : Bool := (fs.node path).isOk

/-- Whether the last name of a path is itself a link. -/
def isLink (fs : FileSystem) (path : String) : Bool :=
  match (fs.resolve path false).map (Trail.node fs.root) with
  | .ok (.link _) => true
  | _ => false

/-- The entries of the directory that a path leads to. -/
def entries? (fs : FileSystem) (path : String) : Option (List (String × Node)) :=
  match fs.node path with
  | .ok (.dir entries) => some entries
  | _ => none

/-- The bytes of the file that a path leads to. -/
def read (fs : FileSystem) (path : String) : Except OsError ByteArray :=
  match fs.node path with
  | .ok (.file content) => .ok content
  | .ok _ => .error .isDirectory
  | .error cause => .error cause

/-- The working directory as an absolute path. -/
def cwdPath (fs : FileSystem) : String := "/" ++ "/".intercalate fs.cwd

end FileSystem

end ImportScan
