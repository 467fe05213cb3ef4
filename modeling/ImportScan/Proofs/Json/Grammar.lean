import Mathlib.Algebra.Field.Rat
import Mathlib.Algebra.Order.Ring.Rat
import Mathlib.Data.List.Basic

/-!
JSON texts and what they stand for, by the grammar alone. A string stands for UTF-16 code units,
since an escape may name one half of a surrogate pair without the other; a number stands for an
exact decimal. Where blanks stand, which escapes are used and how a number is put do not show in
what a text stands for.
-/

namespace ImportScan.Json

/-- What a JSON value stands for; the members of an object keep their order and repetitions. -/
inductive Data where
  | null
  | boolean (value : Bool)
  | number (amount : ℚ)
  | string (units : List ℕ)
  | list (elements : List Data)
  | object (members : List (List ℕ × Data))

/-! ### Strings -/

/-- The UTF-16 code units of a character: itself, or a pair of surrogates. -/
def codeUnits (c : Char) : List ℕ :=
  if c.toNat < 0x10000 then [c.toNat]
  else [0xd800 + (c.toNat - 0x10000) / 0x400, 0xdc00 + (c.toNat - 0x10000) % 0x400]

/-- The UTF-16 code units of a text. -/
def utf16 (text : List Char) : List ℕ := text.flatMap codeUnits

/-- The code units of a string. -/
def unitsOf (text : String) : List ℕ := utf16 text.toList

/-- A string as JSON data. -/
def Data.text (text : String) : Data := .string (unitsOf text)

/-- A list of strings as JSON data. -/
def Data.texts (texts : List String) : Data := .list (texts.map .text)

/-- A hexadecimal digit, in lower or upper case, and its value. -/
def IsHex (c : Char) (n : ℕ) : Prop :=
  "0123456789abcdef".toList[n]? = some c ∨ "0123456789ABCDEF".toList[n]? = some c

/-- The characters that may follow a backslash, and what they stand for there. -/
def shortEscapes : List (Char × Char) :=
  [('\x22', '\x22'), ('\\', '\\'), ('/', '/'), ('b', '\x08'), ('f', '\x0c'), ('n', '\n'),
    ('r', '\r'), ('t', '\t')]

/-- Four hexadecimal digits, and the code unit they stand for. -/
inductive IsUnit : List Char → ℕ → Prop where
  | mk {a b c d : Char} {w x y z : ℕ} (first : IsHex a w) (second : IsHex b x)
      (third : IsHex c y) (fourth : IsHex d z) :
      IsUnit [a, b, c, d] (((w * 16 + x) * 16 + y) * 16 + z)

/-- One piece of a string between its quotes, and its code units. -/
inductive IsPiece : List Char → List ℕ → Prop where
  | plain {c : Char} (quote : c ≠ '\x22') (backslash : c ≠ '\\') (control : ' ' ≤ c) :
      IsPiece [c] (codeUnits c)
  | short {letter c : Char} (mem : (letter, c) ∈ shortEscapes) :
      IsPiece ['\\', letter] (codeUnits c)
  | unit {digits : List Char} {n : ℕ} (h : IsUnit digits n) : IsPiece ('\\' :: 'u' :: digits) [n]

/-- What stands between the quotes of a string, and its code units. -/
inductive IsBody : List Char → List ℕ → Prop where
  | nil : IsBody [] []
  | cons {piece rest : List Char} {units more : List ℕ} (head : IsPiece piece units)
      (tail : IsBody rest more) : IsBody (piece ++ rest) (units ++ more)

/-- A string with its quotes, and its code units. -/
def IsString (s : List Char) (units : List ℕ) : Prop :=
  ∃ body, IsBody body units ∧ s = '\x22' :: (body ++ ['\x22'])

/-! ### Numbers -/

/-- A run of digits, not empty. -/
structure IsDigits (s : List Char) : Prop where
  nonempty : s ≠ []
  digits : ∀ c ∈ s, c.isDigit = true

/-- The number that digits stand for. -/
def numeral (digits : List Char) : ℕ := Nat.ofDigitChars 10 digits 0

/-- The digits before the point: zero stands alone. -/
structure IsWhole (s : List Char) : Prop extends IsDigits s where
  lone_zero : s.head? = some '0' → s = ['0']

/-- The part behind the point, if there is one, and its digits. -/
inductive IsFraction : List Char → List Char → Prop where
  | absent : IsFraction [] []
  | present {digits : List Char} (h : IsDigits digits) : IsFraction ('.' :: digits) digits

/-- The exponent, if there is one, and its value. -/
inductive IsExponent : List Char → ℤ → Prop where
  | absent : IsExponent [] 0
  | bare {e : Char} {digits : List Char} (letter : e = 'e' ∨ e = 'E') (h : IsDigits digits) :
      IsExponent (e :: digits) (numeral digits)
  | plus {e : Char} {digits : List Char} (letter : e = 'e' ∨ e = 'E') (h : IsDigits digits) :
      IsExponent (e :: '+' :: digits) (numeral digits)
  | minus {e : Char} {digits : List Char} (letter : e = 'e' ∨ e = 'E') (h : IsDigits digits) :
      IsExponent (e :: '-' :: digits) (-numeral digits)

/-- A number without sign, and its amount. -/
inductive IsUnsigned : List Char → ℚ → Prop where
  | mk {whole fraction digits exponent : List Char} {power : ℤ} (before : IsWhole whole)
      (behind : IsFraction fraction digits) (scale : IsExponent exponent power) :
      IsUnsigned (whole ++ fraction ++ exponent)
        (numeral (whole ++ digits) * 10 ^ (power - digits.length))

/-- A number, and its amount. -/
inductive IsNumber : List Char → ℚ → Prop where
  | positive {s : List Char} {amount : ℚ} (h : IsUnsigned s amount) : IsNumber s amount
  | negative {s : List Char} {amount : ℚ} (h : IsUnsigned s amount) :
      IsNumber ('-' :: s) (-amount)

/-! ### Values -/

/-- White space between the parts of a text: spaces, tabs, line feeds and carriage returns. -/
def IsBlank (s : List Char) : Prop := ∀ c ∈ s, c ∈ [' ', '\t', '\n', '\r']

/-- The kinds of passages that texts are made of: a value alone, one with blanks around it, such
ones with commas between them, and the same for the members of objects. -/
inductive Passage where
  | value (data : Data)
  | element (data : Data)
  | elements (elements : List Data)
  | member (key : List ℕ) (data : Data)
  | members (members : List (List ℕ × Data))

/-- `Spells p s`: the characters `s` are a spelling of the passage `p`. -/
inductive Spells : Passage → List Char → Prop where
  | null : Spells (.value .null) "null".toList
  | true : Spells (.value (.boolean .true)) "true".toList
  | false : Spells (.value (.boolean .false)) "false".toList
  | number {s : List Char} {amount : ℚ} (h : IsNumber s amount) :
      Spells (.value (.number amount)) s
  | string {s : List Char} {units : List ℕ} (h : IsString s units) :
      Spells (.value (.string units)) s
  | emptyList {b : List Char} (blank : IsBlank b) : Spells (.value (.list [])) ('[' :: (b ++ [']']))
  | list {s : List Char} {ds : List Data} (h : Spells (.elements ds) s) :
      Spells (.value (.list ds)) ('[' :: (s ++ [']']))
  | emptyObject {b : List Char} (blank : IsBlank b) :
      Spells (.value (.object [])) ('\x7b' :: (b ++ ['\x7d']))
  | object {s : List Char} {ms : List (List ℕ × Data)} (h : Spells (.members ms) s) :
      Spells (.value (.object ms)) ('\x7b' :: (s ++ ['\x7d']))
  | element {b s b' : List Char} {d : Data} (before : IsBlank b) (h : Spells (.value d) s)
      (behind : IsBlank b') : Spells (.element d) (b ++ s ++ b')
  | lastElement {s : List Char} {d : Data} (h : Spells (.element d) s) : Spells (.elements [d]) s
  | nextElement {s t : List Char} {d : Data} {ds : List Data} (h : Spells (.element d) s)
      (rest : Spells (.elements ds) t) : Spells (.elements (d :: ds)) (s ++ ',' :: t)
  | member {b k b' s : List Char} {key : List ℕ} {d : Data} (before : IsBlank b)
      (name : IsString k key) (behind : IsBlank b') (h : Spells (.element d) s) :
      Spells (.member key d) (b ++ k ++ b' ++ ':' :: s)
  | lastMember {s : List Char} {key : List ℕ} {d : Data} (h : Spells (.member key d) s) :
      Spells (.members [(key, d)]) s
  | nextMember {s t : List Char} {key : List ℕ} {d : Data} {ms : List (List ℕ × Data)}
      (h : Spells (.member key d) s) (rest : Spells (.members ms) t) :
      Spells (.members ((key, d) :: ms)) (s ++ ',' :: t)

/-- A whole text and what it stands for: one value with blanks around it. -/
def IsText (s : List Char) (d : Data) : Prop := Spells (.element d) s

end ImportScan.Json
