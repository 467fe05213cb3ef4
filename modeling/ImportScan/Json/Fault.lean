import ImportScan.Decimal.Layout
import ImportScan.Text.Quoted

/-!
Faults in JSON text: what is wrong, and where. While reading, a place is the number of bytes that
are left; line and column are worked out from the whole text at the end.
-/

namespace ImportScan.Json

/-- A value that is there instead of one of the wanted kind. -/
inductive Found where
  | null
  | boolean (value : Bool)
  | integer (value : Int)
  | float (value : Float)
  | string (text : String)
  | sequence
  | map

/-- Numbers with a fraction are shown with all their digits from `10^-5` to below `10^16`, and
beyond with an exponent. -/
def floatLayout : Decimal.Layout := ⟨-5, 15⟩

/-- How a value that is not of the wanted kind is described. -/
def Found.text : Found → String
  | null => "null"
  | boolean value => "boolean `" ++ toString value ++ "`"
  | integer value => "integer `" ++ toString value ++ "`"
  | float value => "floating point `" ++ floatLayout.text value ++ "`"
  | string text => "string " ++ Quoted.quote text
  | sequence => "sequence"
  | map => "map"

/-- What can be wrong with a text that should hold a value of a known shape. -/
inductive Cause where
  | endInValue
  | endInList
  | endInObject
  | endInString
  | expectedValue
  | expectedIdent
  | expectedColon
  | expectedListEnd
  | expectedObjectEnd
  | keyNotString
  | trailingComma
  | trailingCharacters
  | controlCharacter
  | invalidEscape
  | loneSurrogate
  | unfinishedPair
  | invalidNumber
  | numberOutOfRange
  | duplicateField (name : String)
  | wrongType (found : Found) (wanted : String)

/-- The wording of a cause. -/
def Cause.message : Cause → String
  | endInValue => "EOF while parsing a value"
  | endInList => "EOF while parsing a list"
  | endInObject => "EOF while parsing an object"
  | endInString => "EOF while parsing a string"
  | expectedValue => "expected value"
  | expectedIdent => "expected ident"
  | expectedColon => "expected `:`"
  | expectedListEnd => "expected `,` or `]`"
  | expectedObjectEnd => "expected `,` or `\x7d`"
  | keyNotString => "key must be a string"
  | trailingComma => "trailing comma"
  | trailingCharacters => "trailing characters"
  | controlCharacter => "control character (\\u0000-\\u001F) found while parsing a string"
  | invalidEscape => "invalid escape"
  | loneSurrogate => "lone leading surrogate in hex escape"
  | unfinishedPair => "unexpected end of hex escape"
  | invalidNumber => "invalid number"
  | numberOutOfRange => "number out of range"
  | duplicateField name => "duplicate field `" ++ name ++ "`"
  | wrongType found wanted => "invalid type: " ++ found.text ++ ", expected " ++ wanted

/-- The number of bytes that characters take. -/
def byteLength (s : List Char) : Nat := (String.ofList s).utf8ByteSize

/-- What is wrong, with the number of bytes left behind the place where it was noticed. -/
structure Fault where
  cause : Cause
  left : Nat

/-- A fault noticed with exactly `rest` left. -/
def Fault.before (cause : Cause) (rest : List Char) : Fault := ⟨cause, byteLength rest⟩

/-- A fault noticed at the first byte of `rest`, which counts as seen; at the end nothing does. -/
def Fault.seeing (cause : Cause) (rest : List Char) : Fault := ⟨cause, byteLength rest - 1⟩

/-- The line and column after the first `index` bytes of a text, counted on from those given:
lines are ended by newlines, and a column is the number of bytes since the last of them. -/
def locate (line column : Nat) : Nat → List Char → Nat × Nat
  | index, c :: rest =>
    if index < c.utf8Size then (line, column + index)
    else if c = '\n' then locate (line + 1) 0 (index - 1) rest
    else locate line (column + c.utf8Size) (index - c.utf8Size) rest
  | _, [] => (line, column)

/-- The wording of a fault in `text`, with its place. -/
def Fault.message (text : List Char) (fault : Fault) : String :=
  let (line, column) := locate 1 0 (byteLength text - fault.left) text
  fault.cause.message ++ " at line " ++ toString line ++ " column " ++ toString column

end ImportScan.Json
