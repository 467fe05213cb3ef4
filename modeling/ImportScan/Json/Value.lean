import ImportScan.Json.Number
import ImportScan.Json.StringLiteral

/-!
JSON values and the form in which they are written: one element or member a line, two spaces deeper
than what it is in, and nothing between the brackets of an empty list or object.
-/

namespace ImportScan.Json

/-- A JSON value; the members of an object keep their order. -/
inductive Value where
  | null
  | boolean (value : Bool)
  | number (value : Number)
  | string (text : String)
  | list (elements : List Value)
  | object (members : List (String × Value))

/-- The start of a line at a depth. -/
def newLine (depth : Nat) : List Char := '\n' :: List.replicate (2 * depth) ' '

namespace Value

mutual

/-- The text of a value at a depth. -/
def pretty (depth : Nat) : Value → List Char
  | null => "null".toList
  | boolean true => "true".toList
  | boolean false => "false".toList
  | number n => n.write
  | string text => StringLiteral.write text.toList
  | list [] => ['[', ']']
  | list (v :: vs) =>
    '[' :: newLine (depth + 1) ++ v.pretty (depth + 1) ++ prettyElements (depth + 1) vs ++
      newLine depth ++ [']']
  | object [] => ['\x7b', '\x7d']
  | object ((key, v) :: members) =>
    '\x7b' :: newLine (depth + 1) ++ StringLiteral.write key.toList ++ [':', ' '] ++
      v.pretty (depth + 1) ++ prettyMembers (depth + 1) members ++ newLine depth ++ ['\x7d']

/-- The text of the elements after the first. -/
def prettyElements (depth : Nat) : List Value → List Char
  | [] => []
  | v :: vs => ',' :: newLine depth ++ v.pretty depth ++ prettyElements depth vs

/-- The text of the members after the first. -/
def prettyMembers (depth : Nat) : List (String × Value) → List Char
  | [] => []
  | (key, v) :: members =>
    ',' :: newLine depth ++ StringLiteral.write key.toList ++ [':', ' '] ++ v.pretty depth ++
      prettyMembers depth members

end

end Value

end ImportScan.Json
