import ImportScan.Program

/-!
The command line program. It takes a picture of the part of the file system that a run can see,
runs on that picture and passes on what comes out. Directories that are left out, and the bytes of
files with other extensions, cannot change a run and are not read.
-/

namespace ImportScan.Snapshot

/-- The absolute path of a place. -/
def path (place : List String) : String := "/" ++ "/".intercalate place

mutual

/-- The places that the links in a picture stand for. -/
def linkTargets : Node → List String
  | .file _ => []
  | .link target => [target]
  | .dir entries => entryTargets entries

/-- The places that the links among some entries and below them stand for. -/
def entryTargets : List (String × Node) → List String
  | [] => []
  | (_, node) :: rest => linkTargets node ++ entryTargets rest

end

/-- The names of a path that lead on from somewhere. -/
def names (path : String) : List String :=
  (Path.segments path).filter fun name => name ≠ "" && name ≠ "."

/-- A path in the form in which files are asked about. -/
def located (path : String) := (IO.FS.DirEntry.mk path "").root

/-- What kind of thing is at a path, links not followed. -/
def kind? (path : String) : IO (Option IO.FS.FileType) :=
  try return some (← (located path).symlinkMetadata).type catch _ => return none

/-- The bytes at a path; what cannot be read counts as empty. -/
def content (path : String) : IO ByteArray :=
  try IO.FS.readBinFile path catch _ => return .empty

/-- Why a path leads nowhere, if that is so and the cause is one that a picture can show. The
system's numbers come negated. -/
def failure? (path : String) : IO (Option OsError) :=
  try
    let _ ← (located path).metadata
    return none
  catch
    | .noFileOrDirectory _ _ _ => return some .notFound
    | .inappropriateType _ _ _ => return some .notDirectory
    | .invalidArgument _ code _ =>
      return if code == 0 - 36 then some .nameTooLong
        else if code == 0 - 40 then some .tooManyLinks
        else none
    | _ => return none

/-- A name that no file can have: in a picture it is a file at the root. -/
def impossible : String := "\x00"

/-- Where the link of a name at a path leads. One that leads nowhere stands for something that
fails in the same way: for itself, for a name that is missing or too long, or for a file taken as a
directory. -/
def target (path name : String) : IO String :=
  try return (← IO.FS.realPath path).toString
  catch _ =>
    match ← failure? path with
    | some .notFound => return "/" ++ impossible ++ impossible
    | some .notDirectory => return "/" ++ impossible ++ "/"
    | some .nameTooLong => return "".pushn 'n' (FileSystem.maxNameBytes + 1)
    | _ => return name

/-- A picture of all below the directory at a path that a scan can see. What lies too deep to be
looked at is taken for a file if its name says so, and for a directory otherwise. -/
partial def whole (config : Config) (old : Option Node) (directory : String) : IO Node := do
  let mut entries : List (String × Node) := []
  let listed ← try (located directory).readDir catch _ => pure #[]
  for entry in listed do
    let name := entry.fileName
    let inner := Path.join directory name
    let before := old.bind (Node.entry? name)
    let node ← match ← kind? inner with
      | some .dir =>
        if config.isExcludedDir name then pure (before.getD (.dir []))
        else whole config before inner
      | some .symlink => pure (.link (← target inner name))
      | some _ =>
        if config.isSupported inner || name == Config.fileName then
          pure (.file (← content inner))
        else pure (.file .empty)
      | none => pure (if config.isSupported inner then .file .empty else .dir [])
    entries := (name, node) :: entries
  return .dir entries

/-- Adds to a picture what the segments of a path lead to from a place. With a configuration, all
below the directory that the whole path leads to is added too. Where the path leads through too
many links, though each of them leads somewhere, the last one is taken for a circle. -/
partial def reach (config : Option Config) (whence : String) (last : Option (List String))
    (picture : Node) (place : List String) : List String → IO Node
  | [] => do
    if let some link := last then
      if (← failure? whence) == some .tooManyLinks then
        return picture.put link (.link (path link))
    let old := picture.at? place
    match ← kind? (path place), config with
    | some .dir, some config => return picture.put place (← whole config old whence)
    | some .dir, none => return picture.put place (old.getD (.dir []))
    | some _, _ => return picture.put place (.file (← content (path place)))
    | none, _ => return picture
  | "" :: rest => reach config whence last picture place rest
  | "." :: rest => reach config whence last picture place rest
  | ".." :: rest => reach config whence last picture place.dropLast rest
  | name :: rest => do
    let inner := place ++ [name]
    match ← kind? (path inner) with
    | none => return picture.put place ((picture.at? place).getD (.dir []))
    | some .symlink =>
      let goal ← target (path inner) name
      let picture := picture.put inner (.link goal)
      if goal == name then return picture
      else reach config whence (some inner) picture [] (names goal ++ rest)
    | some .dir => reach config whence last picture inner rest
    | some _ => return picture.put inner (.file (← content (path inner)))

/-- Adds to a picture what a path leads to. -/
def add (config : Option Config) (fs : FileSystem) (path : String) : IO FileSystem := do
  let place := if Path.isAbsolute path then [] else fs.cwd
  return { fs with root := ← reach config path none fs.root place (Path.segments path) }

/-- The part of the file system that a run with these options can see. -/
def take (o : CommandLine.Options) : IO FileSystem := do
  let cwd := names (← IO.FS.realPath ".").toString
  let empty := (Node.dir []).put [impossible] (.file .empty)
  let bare : FileSystem := { root := empty.put cwd (.dir []), cwd }
  let base := Program.projectRoot bare o
  let fs ← add none (← add none bare base) (Path.join base Config.fileName)
  match Config.load fs base with
  | .error _ => return fs
  | .ok config =>
    let config := o.amend config
    let fs ← (config.resolvedRoots base).foldlM (add (some config)) fs
    (linkTargets fs.root).foldlM (add none) fs

end ImportScan.Snapshot

namespace ImportScan

/-- Runs the program on the real file system. Where standard output fails, the run is that with a
sink that fails so. -/
def Program.start (arguments : List String) : IO UInt32 := do
  let fs ← match CommandLine.parse arguments with
    | .ok o => Snapshot.take o
    | .error _ => pure { root := .dir [], cwd := [] }
  let written := Program.run fs arguments .working
  let outcome ←
    try
      let stdout ← IO.getStdout
      if !written.stdout.taken.isEmpty then
        stdout.write ⟨written.stdout.taken.toArray⟩
        stdout.flush
      pure written
    catch
      | .resourceVanished _ _ => pure (Program.run fs arguments .closed)
      | _ => pure (Program.run fs arguments .full)
  for line in outcome.stderr do
    IO.eprintln line
  return outcome.exit.toUInt32

end ImportScan

/-- The entry point. -/
def main (arguments : List String) : IO UInt32 := ImportScan.Program.start arguments
