import ImportScan.FileSystem.Resolve

/-!
Reading a source file as text. Text is strict UTF-8: `String.fromUTF8?` accepts exactly the bytes
that a text encodes to, and a byte order mark stays part of the text.
-/

namespace ImportScan

/-- Why a source file gives no text. -/
inductive SourceError where
  | unreadable (cause : OsError)
  | notText
  deriving DecidableEq, Repr

/-- The wording of a source error. -/
def SourceError.message : SourceError → String
  | unreadable cause => "Failed to read file: " ++ cause.message
  | notText => "File is not valid UTF-8"

/-- The text of the file that a path leads to. -/
def FileSystem.readSource (fs : FileSystem) (path : String) : Except SourceError String :=
  match fs.read path with
  | .error cause => .error (.unreadable cause)
  | .ok bytes =>
    match String.fromUTF8? bytes with
    | some text => .ok text
    | none => .error .notText

end ImportScan
