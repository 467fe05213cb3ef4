import ImportScan.CommandLine.Options

/-!
The shapes of a single argument, by its dashes alone.
-/

namespace ImportScan.CommandLine

/-- An argument before it is known which options there are. A lone dash is plain text. -/
inductive Token where
  | endOfOptions
  | long (name : String) (value : Option String)
  | short (letters : List Char)
  | plain
  deriving DecidableEq, Repr

/-- A long option's name, and its value where an equals sign follows. -/
def Token.ofLong (s : List Char) : Token :=
  match s.dropWhile (· ≠ '=') with
  | _ :: value => .long (String.ofList (s.takeWhile (· ≠ '='))) (some (String.ofList value))
  | [] => .long (String.ofList s) none

/-- The shape of an argument. -/
def Token.ofArgument (argument : String) : Token :=
  match argument.toList with
  | ['-', '-'] => .endOfOptions
  | '-' :: '-' :: rest => .ofLong rest
  | '-' :: c :: rest => .short (c :: rest)
  | _ => .plain

/-- A known option. -/
inductive Known where
  | setting (s : Setting)
  | switch (w : Switch)
  deriving DecidableEq, Repr

/-- The option of a long name; names are not shortened. -/
def Known.ofName? (name : String) : Option Known :=
  match Setting.all.find? (·.name == name) with
  | some s => some (.setting s)
  | none => (Switch.all.find? (·.name == name)).map .switch

/-- The option of a letter. -/
def Known.ofLetter? (letter : Char) : Option Known :=
  match Setting.all.find? (·.letter? == some letter) with
  | some s => some (.setting s)
  | none => (Switch.all.find? (·.letter? == some letter)).map .switch

end ImportScan.CommandLine
