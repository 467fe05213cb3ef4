import ImportScan.Config

/-!
What the command line can ask for: settings, which take a value, and switches, which take none.
-/

namespace ImportScan.CommandLine

/-- The options that take a value. -/
inductive Setting where
  | root
  | exclude
  | ext
  | format
  deriving DecidableEq, Repr

/-- The options that take no value. -/
inductive Switch where
  | failOnEmpty
  | verbose
  | help
  | version
  deriving DecidableEq, Repr

namespace Setting

/-- The long name of a setting. -/
def name : Setting → String
  | root => "root"
  | exclude => "exclude"
  | ext => "ext"
  | format => "format"

/-- The letter of a setting, if it has one. -/
def letter? : Setting → Option Char
  | root => some 'r'
  | exclude => some 'e'
  | ext => none
  | format => some 'f'

/-- What the value of a setting is called. -/
def valueName : Setting → String
  | root => "ROOT"
  | exclude => "NAME"
  | ext => "EXT"
  | format => "FORMAT"

/-- How messages name a setting. -/
def display (s : Setting) : String := "--" ++ s.name ++ " <" ++ s.valueName ++ ">"

/-- All settings. -/
def all : List Setting := [root, exclude, ext, format]

end Setting

namespace Switch

/-- The long name of a switch. -/
def name : Switch → String
  | failOnEmpty => "fail-on-empty"
  | verbose => "verbose"
  | help => "help"
  | version => "version"

/-- The letter of a switch, if it has one. -/
def letter? : Switch → Option Char
  | failOnEmpty => none
  | verbose => some 'v'
  | help => some 'h'
  | version => some 'V'

/-- How messages name a switch. -/
def display (w : Switch) : String := "--" ++ w.name

/-- All switches. -/
def all : List Switch := [failOnEmpty, verbose, help, version]

end Switch

/-- What a command line asks for. -/
structure Options where
  roots : List String := []
  root : Option String := none
  excludes : List String := []
  exts : List String := []
  format : Option String := none
  failOnEmpty : Bool := false
  verbose : Bool := false
  deriving DecidableEq, Repr

namespace Options

/-- The name of the form in which the report is wanted. -/
def formatName (o : Options) : String := o.format.getD "list"

/-- The configuration with what the command line adds to it: roots on the command line replace
those configured, names and extensions are added to them. -/
def amend (o : Options) (c : Config) : Config :=
  let c := if o.roots.isEmpty then c else c.withRoots o.roots
  o.exts.foldl Config.addExtension (o.excludes.foldl Config.addExcludeDir c)

end Options

end ImportScan.CommandLine
