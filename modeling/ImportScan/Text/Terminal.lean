/-!
What is left of a text for a reader: the control characters and control sequences that steer a
terminal are taken out, white space stays. A text without any of them is left as it is
(`keep_plain`), and nothing but visible characters is ever kept (`isVisible_of_mem_keep`).
-/

namespace ImportScan.Terminal

/-- The character that opens a control sequence, inside another one too. -/
def escape : Char := '\x1b'

/-- Whether a character breaks off a control sequence: cancel and substitute do. -/
def isAbort (c : Char) : Bool := c = '\x18' || c = '\x1a'

/-- Whether a control character is white space: tab, line feed, form feed or carriage return. -/
def isLayout (c : Char) : Bool := c = '\t' || c = '\n' || c = '\x0c' || c = '\r'

/-- Whether a code point is in a range, both ends included. -/
def between (low high : Nat) (c : Char) : Bool := decide (low ≤ c.toNat) && decide (c.toNat ≤ high)

/-- Whether a character is kept outside of control sequences. -/
def isVisible (c : Char) : Bool := isLayout c || between 0x20 0x7e c || decide (0x80 ≤ c.toNat)

/-- How far an unfinished control sequence has been read. -/
inductive Part where
  /-- Behind the escape character. -/
  | opened
  /-- In an escape sequence with intermediate characters. -/
  | intermediate
  /-- In the parameters of a control function. -/
  | parameters
  /-- At the start of a device control string. -/
  | device
  /-- In the parameters of a device control string. -/
  | deviceParameters
  /-- In the intermediate characters of a device control string. -/
  | deviceIntermediate
  /-- In an operating system command. -/
  | command
  /-- In the body of any other control string. -/
  | body
  deriving DecidableEq, Repr

/-- Where the reading of a text stands. White space may suspend a sequence: what follows is kept
up to the next character that is not visible, and then the sequence goes on. -/
inductive Mode where
  | plain
  | within (part : Part)
  | suspended (part : Part)
  deriving DecidableEq, Repr

/-- Whether white space is kept in this part of a sequence. -/
def Part.isOpen : Part → Bool
  | opened | intermediate | parameters => true
  | _ => false

/-- Whether a character ends the body of a control string: the string terminator is a byte, and it
counts in the encoding of another character too. -/
def isTerminator (c : Char) : Bool := (String.utf8EncodeChar c).contains 0x9c

/-- What the character behind the escape character opens; most finish the sequence at once. -/
def Mode.ofOpener (c : Char) : Mode :=
  match c with
  | '[' => .within .parameters
  | ']' => .within .command
  | 'P' => .within .device
  | 'X' | '^' | '_' => .within .body
  | c =>
    if between 0x20 0x2f c then .within .intermediate
    else if between 0x30 0x7e c then .plain
    else .within .opened

/-- Where the reading stands after a character of a sequence. A character without a meaning there
changes nothing. -/
def Part.next (part : Part) (c : Char) : Mode :=
  match part with
  | .opened => Mode.ofOpener c
  | .intermediate => if between 0x30 0x7e c then .plain else .within .intermediate
  | .parameters => if between 0x40 0x7e c then .plain else .within .parameters
  | .device =>
    if between 0x20 0x2f c then .within .deviceIntermediate
    else if between 0x30 0x3f c then .within .deviceParameters
    else if between 0x40 0x7e c then .within .body
    else .within .device
  | .deviceParameters =>
    if between 0x20 0x2f c then .within .deviceIntermediate
    else if between 0x3c 0x7e c then .within .body
    else .within .deviceParameters
  | .deviceIntermediate =>
    if between 0x30 0x7e c then .within .body else .within .deviceIntermediate
  | .command => if c = '\x07' then .plain else .within .command
  | .body => if isTerminator c then .plain else .within .body

/-- Where the reading stands after a character, and whether the character is kept. A suspended
sequence is forgotten at a character beyond ASCII. -/
def Mode.step (mode : Mode) (c : Char) : Mode × Bool :=
  if c = escape then (.within .opened, false)
  else if isAbort c then (.plain, false)
  else
    match mode with
    | .plain => (.plain, isVisible c)
    | .within part =>
      if isLayout c && part.isOpen then (.suspended part, true) else (part.next c, false)
    | .suspended part =>
      if !isVisible c then (.within part, false)
      else if c.toNat < 0x80 then (.suspended part, true)
      else (.plain, true)

/-- The characters that are kept. -/
def keep (mode : Mode) : List Char → List Char
  | [] => []
  | c :: rest =>
    match mode.step c with
    | (mode, true) => c :: keep mode rest
    | (mode, false) => keep mode rest

/-- The text without what would steer a terminal. -/
def plainText (text : String) : String := String.ofList (keep .plain text.toList)

theorem isVisible_of_isLayout {c : Char} (h : isLayout c) : isVisible c := by
  simp [isVisible, h]

theorem isVisible_of_step {mode next : Mode} {c : Char} (h : mode.step c = (next, true)) :
    isVisible c := by
  unfold Mode.step at h
  grind [isVisible_of_isLayout]

/-- Only visible characters are kept. -/
theorem isVisible_of_mem_keep {mode : Mode} {s : List Char} {c : Char} (h : c ∈ keep mode s) :
    isVisible c := by
  induction s generalizing mode with
  | nil => simp [keep] at h
  | cons d rest ih =>
    unfold keep at h
    split at h
    · next hs =>
      rcases List.mem_cons.1 h with rfl | h
      · exact isVisible_of_step hs
      · exact ih h
    · exact ih h

theorem step_plain {c : Char} (h : isVisible c) : Mode.plain.step c = (.plain, true) := by
  have he : c ≠ escape := by rintro rfl; revert h; decide
  have ha : isAbort c = false := by
    rw [isAbort, Bool.or_eq_false_iff]
    constructor <;> (rw [decide_eq_false_iff_not]; rintro rfl; revert h; decide)
  simp [Mode.step, he, ha, h]

/-- A text of visible characters is kept as it is. -/
theorem keep_plain {s : List Char} (h : ∀ c ∈ s, isVisible c) : keep .plain s = s := by
  induction s with
  | nil => rfl
  | cons c rest ih =>
    simp [keep, step_plain (h c (by simp)), ih fun d hd => h d (by simp [hd])]

end ImportScan.Terminal
