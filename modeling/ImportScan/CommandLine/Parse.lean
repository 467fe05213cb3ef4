import ImportScan.CommandLine.Token
import ImportScan.Text.Terminal

/-!
Reading a command line from left to right. An option or a run of roots is settled, that is checked
and taken in, when the next option or another kind of argument comes, or at the end. An unknown
option, or a value for a switch, is reported at once, whatever is still to be settled.
-/

namespace ImportScan.CommandLine

/-- Why a command line cannot be used. -/
inductive UsageError where
  | unexpectedArgument (argument : String)
  | valueRequired (slot : String)
  | repeated (option : String)
  | unexpectedValue (value : String) (switch : Switch)
  deriving DecidableEq, Repr

/-- The wording of a usage error. What was typed is shown without anything in it that would steer
a terminal. -/
def UsageError.message : UsageError → String
  | unexpectedArgument argument =>
    "error: unexpected argument '" ++ Terminal.plainText argument ++ "' found"
  | valueRequired slot =>
    "error: a value is required for '" ++ slot ++ "' but none was supplied"
  | repeated option => "error: the argument '" ++ option ++ "' cannot be used multiple times"
  | unexpectedValue value switch =>
    "error: unexpected value '" ++ Terminal.plainText value ++ "' for '" ++ switch.display ++
      "' found; no more were expected"

/-- Why reading ends without options to run with. -/
inductive Stop where
  | help
  | version
  | usage (error : UsageError)
  deriving DecidableEq, Repr

/-- How messages name the roots. -/
def rootsDisplay : String := "[ROOTS]..."

/-- What is still to be settled. -/
inductive Pending where
  | nothing
  | setting (s : Setting) (value : Option String)
  | roots (values : List String)
  deriving DecidableEq, Repr

/-- How far a command line has been read. -/
structure Progress where
  options : Options := {}
  pending : Pending := .nothing
  deriving DecidableEq, Repr

/-- Takes in a setting with its value. The root and the format are given once at most, and the
root is not empty. -/
def Options.set (o : Options) (s : Setting) (value : String) : Except Stop Options :=
  match s with
  | .root =>
    if o.root.isSome then .error (.usage (.repeated s.display))
    else if value.isEmpty then .error (.usage (.valueRequired s.display))
    else .ok { o with root := some value }
  | .exclude => .ok { o with excludes := o.excludes ++ [value] }
  | .ext => .ok { o with exts := o.exts ++ [value] }
  | .format =>
    if o.format.isSome then .error (.usage (.repeated s.display))
    else .ok { o with format := some value }

/-- Takes in a switch. Help and version end the reading. -/
def Options.turnOn (o : Options) (w : Switch) : Except Stop Options :=
  match w with
  | .failOnEmpty =>
    if o.failOnEmpty then .error (.usage (.repeated w.display))
    else .ok { o with failOnEmpty := true }
  | .verbose =>
    if o.verbose then .error (.usage (.repeated w.display)) else .ok { o with verbose := true }
  | .help => .error .help
  | .version => .error .version

/-- Takes in roots, none of which may be empty. -/
def Options.addRoots (o : Options) (values : List String) : Except Stop Options :=
  if values.contains "" then .error (.usage (.valueRequired rootsDisplay))
  else .ok { o with roots := o.roots ++ values }

namespace Progress

/-- The options when all that is pending has been taken in. -/
def settled (p : Progress) : Except Stop Options :=
  match p.pending with
  | .nothing => .ok p.options
  | .setting s none => .error (.usage (.valueRequired s.display))
  | .setting s (some value) => p.options.set s value
  | .roots values => p.options.addRoots values

/-- Takes in an argument that is a value or a root. -/
def addPlain (p : Progress) (argument : String) : Except Stop Progress :=
  match p.pending with
  | .setting s none => .ok { p with pending := .setting s (some argument) }
  | .roots values => .ok { p with pending := .roots (values ++ [argument]) }
  | _ => p.settled.map fun options => ⟨options, .roots [argument]⟩

/-- Takes in an argument behind the end of the options: a root, whatever it looks like. -/
def addRoot (p : Progress) (argument : String) : Except Stop Progress :=
  match p.pending with
  | .roots values => .ok { p with pending := .roots (values ++ [argument]) }
  | _ => p.settled.map fun options => ⟨options, .roots [argument]⟩

/-- Takes in a setting; without a value at hand it waits for the next argument. -/
def addSetting (p : Progress) (s : Setting) (value : Option String) : Except Stop Progress :=
  match p.settled, value with
  | .error stop, _ => .error stop
  | .ok options, none => .ok ⟨options, .setting s none⟩
  | .ok options, some value => (options.set s value).map fun options => ⟨options, .nothing⟩

/-- Takes in a switch. -/
def addSwitch (p : Progress) (w : Switch) : Except Stop Progress :=
  match p.settled with
  | .error stop => .error stop
  | .ok options => (options.turnOn w).map fun options => ⟨options, .nothing⟩

/-- Takes in a long option. -/
def addLong (p : Progress) (name : String) (value : Option String) : Except Stop Progress :=
  match Known.ofName? name, value with
  | none, _ => .error (.usage (.unexpectedArgument ("--" ++ name)))
  | some (.setting s), value => p.addSetting s value
  | some (.switch w), none => p.addSwitch w
  | some (.switch w), some value => .error (.usage (.unexpectedValue value w))

/-- The value that follows a setting's letter in the same argument, if there is one: an equals
sign in front of it does not belong to it. -/
def attached? : List Char → Option String
  | [] => none
  | '=' :: rest => some (String.ofList rest)
  | rest => some (String.ofList rest)

/-- Takes in the letters of an argument: switches up to the first setting, whose value is all that
follows. -/
def addShort (p : Progress) : List Char → Except Stop Progress
  | [] => .ok p
  | c :: rest =>
    match Known.ofLetter? c with
    | none => .error (.usage (.unexpectedArgument (String.ofList ['-', c])))
    | some (.setting s) => p.addSetting s (attached? rest)
    | some (.switch w) =>
      match p.addSwitch w with
      | .error stop => .error stop
      | .ok p => p.addShort rest

/-- Takes in the rest of the arguments. -/
def read (p : Progress) : List String → Except Stop Options
  | [] => p.settled
  | argument :: rest =>
    let step (next : Except Stop Progress) : Except Stop Options :=
      match next with
      | .error stop => .error stop
      | .ok p => p.read rest
    match Token.ofArgument argument with
    | .endOfOptions => (rest.foldlM addRoot p).bind settled
    | .long name value => step (p.addLong name value)
    | .short letters => step (p.addShort letters)
    | .plain => step (p.addPlain argument)

end Progress

/-- The options that a command line asks for. -/
def parse (arguments : List String) : Except Stop Options := Progress.read {} arguments

end ImportScan.CommandLine
