import ImportScan.Config

/-!
A configuration while it is being read: each field is there or not, and a field that is not there
takes its default in the end.
-/

namespace ImportScan.Config

/-- The fields of a configuration, in the order in which a list of them is read. -/
inductive Field where
  | roots
  | excludeDirs
  | extensions
  deriving DecidableEq, Repr

namespace Field

/-- All fields in order. -/
def all : List Field := [roots, excludeDirs, extensions]

/-- The key a field has in a configuration file. -/
def key : Field → String
  | roots => "roots"
  | excludeDirs => "excludeDirs"
  | extensions => "extensions"

/-- The field that a key stands for. -/
def ofKey? (key : String) : Option Field := all.find? fun field => field.key == key

/-- What the elements of a field are called. -/
def element : Field → String
  | roots => "path string"
  | _ => "a string"

end Field

/-- The fields read so far. -/
structure Draft where
  roots : Option (List String) := none
  excludeDirs : Option (List String) := none
  extensions : Option (List String) := none
  deriving DecidableEq, Repr

namespace Draft

/-- The value of a field, if it was read. -/
def get? (d : Draft) : Field → Option (List String)
  | .roots => d.roots
  | .excludeDirs => d.excludeDirs
  | .extensions => d.extensions

/-- The draft with a field read. -/
def set (d : Draft) (field : Field) (value : List String) : Draft :=
  match field with
  | .roots => { d with roots := some value }
  | .excludeDirs => { d with excludeDirs := some value }
  | .extensions => { d with extensions := some value }

/-- The configuration in which every field not read has its default. -/
def config (d : Draft) : Config :=
  let default : Config := {}
  { roots := d.roots.getD default.roots
    excludeDirs := d.excludeDirs.getD default.excludeDirs
    extensions := d.extensions.getD default.extensions }

end Draft

end ImportScan.Config
