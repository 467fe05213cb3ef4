/-!
Names of external modules: a letter, digit, `_`, `@` or `-`, then any number of these and `/`.
A name that starts with `.`, `/` or `\` points into the project itself and is no module name.
-/

namespace ImportScan.ModuleName

/-- The characters a module name may start with. -/
def isStart (c : Char) : Bool := c.isAlphanum || c == '_' || c == '@' || c == '-'

/-- The characters a module name may go on with: a slash separates the parts of a scoped name. -/
def isPart (c : Char) : Bool := isStart c || c == '/'

/-- Whether a list of characters is a module name. -/
def accepts : List Char → Bool
  | [] => false
  | c :: rest => isStart c && rest.all isPart

/-- A character that may start a name may also go on with it. -/
theorem isPart_of_isStart {c : Char} (h : isStart c = true) : isPart c = true := by
  simp [isPart, h]

end ImportScan.ModuleName

namespace ImportScan

/-- Whether a text is the name of an external module. -/
def isModuleName (name : String) : Bool := ModuleName.accepts name.toList

end ImportScan
