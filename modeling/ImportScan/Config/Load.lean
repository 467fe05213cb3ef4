import ImportScan.Config.Reader
import ImportScan.FileSystem.Resolve

/-!
Loading the configuration of a project: the file `fileName` in its directory decides; where there
is none, the default applies.
-/

namespace ImportScan.Config

/-- The name of the configuration file. -/
def fileName : String := ".depscanrc.json"

/-- Why a configuration file that is there cannot be used. -/
inductive LoadError where
  | unreadable (cause : OsError)
  | notText
  | malformed (text : List Char) (fault : Json.Fault)

/-- The wording of a load error. -/
def LoadError.message : LoadError → String
  | unreadable cause => "Failed to read config: " ++ cause.message
  | notText => "Failed to read config: stream did not contain valid UTF-8"
  | malformed text fault => "Failed to parse config: " ++ fault.message text

/-- The configuration in the bytes of a file. -/
def ofBytes (bytes : ByteArray) : Except LoadError Config :=
  match String.fromUTF8? bytes with
  | none => .error .notText
  | some text =>
    match readJson text.toList with
    | .ok config => .ok config
    | .error fault => .error (.malformed text.toList fault)

/-- The configuration of the project at `base`. -/
def load (fs : FileSystem) (base : String) : Except LoadError Config :=
  let path := Path.join base fileName
  if fs.pathExists path then
    match fs.read path with
    | .ok bytes => ofBytes bytes
    | .error cause => .error (.unreadable cause)
  else .ok {}

end ImportScan.Config
