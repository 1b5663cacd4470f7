/-
Control sequences of terminals.

A text for a terminal can hold sequences that are not shown but obeyed: they begin
with the escape character and end by rules of their own.  A log is no terminal,
so what is written to it has these sequences taken out, and with them the control
characters that only a terminal can obey.
-/

namespace UrlFilter

/-- Is the character one of the four controls that lay out a text?  They are the
tab, the line feed, the form feed and the carriage return. -/
def isLayout (c : Char) : Bool :=
  c = '\t' || c = '\n' || c = '\x0c' || c = '\r'

/-- Does the character stand for itself outside a control sequence?  Only the
ASCII controls do not, the four of the layout apart. -/
def isShown (c : Char) : Bool :=
  isLayout c || (0x20 ≤ c.toNat && c.toNat != 0x7f)

/-- Is the character one of those from `low` to `high`? -/
def isWithin (low high : Nat) (c : Char) : Bool :=
  low ≤ c.toNat && c.toNat ≤ high

/-- The byte that ends a string where bytes alone are looked at. -/
def stringTerminator : UInt8 := 0x9c

/-- Where in a control sequence a text stands. -/
inductive SequenceState
  /-- Outside every sequence. -/
  | outside
  /-- Behind the escape character. -/
  | escape
  /-- Behind the escape character and what qualifies it. -/
  | qualified
  /-- In the parameters of a control function. -/
  | function
  /-- In front of the parameters of a device control. -/
  | device
  /-- In the parameters of a device control. -/
  | deviceParameters
  /-- Behind the parameters of a device control. -/
  | deviceQualified
  /-- In a string for a device or an application. -/
  | string
  /-- In a command for the operating system. -/
  | command
  deriving DecidableEq, Repr

namespace SequenceState

/-- Is a character shown that takes up the sequence of a state?  The layout is shown
even within the sequences that are no strings. -/
def shows : SequenceState → Char → Bool
  | outside, c => isShown c
  | escape, c => isLayout c
  | qualified, c => isLayout c
  | function, c => isLayout c
  | _, _ => false

/-- The state behind the character that follows the escape character. -/
def afterEscape (c : Char) : SequenceState :=
  if isWithin 0x20 0x2f c then qualified
  else if c = '[' then function
  else if c = 'P' then device
  else if c = ']' then command
  else if c = 'X' || c = '^' || c = '_' then string
  else if isWithin 0x30 0x7e c then outside
  else escape

/-- The state behind a character in front of the string of a device control.
Parameters come first, and what is no parameter any more begins the string. -/
def afterDevice (state : SequenceState) (c : Char) : SequenceState :=
  if isWithin 0x20 0x2f c then deviceQualified
  else if (state != deviceQualified && isWithin 0x30 0x3b c) ||
      (state = device && isWithin 0x3c 0x3f c) then deviceParameters
  else if isWithin 0x30 0x7e c then string
  else state

/-- The state behind a character that is not shown.  The escape character begins a
sequence anywhere, and two of the controls end one anywhere. -/
def next (state : SequenceState) (c : Char) : SequenceState :=
  if c = '\x1b' then escape
  else if c = '\x18' || c = '\x1a' then outside
  else
    match state with
    | outside => outside
    | escape => afterEscape c
    | qualified => if isWithin 0x30 0x7e c then outside else qualified
    | function => if isWithin 0x40 0x7e c then outside else function
    | device => afterDevice device c
    | deviceParameters => afterDevice deviceParameters c
    | deviceQualified => afterDevice deviceQualified c
    | string => if (String.utf8EncodeChar c).contains stringTerminator then outside else string
    | command => if c = '\x07' then outside else command

end SequenceState

/-- How far the reading of a text has come.  What is shown suspends a sequence: the
text goes on as if there were none, and the next control that is not shown takes
the sequence up again. -/
structure SequenceReader where
  state : SequenceState
  suspended : Bool
  deriving DecidableEq, Repr

namespace SequenceReader

/-- In front of a text no sequence has begun. -/
def start : SequenceReader where
  state := .outside
  suspended := false

/-- Is a character shown that comes next? -/
def shows (reader : SequenceReader) (c : Char) : Bool :=
  reader.state.shows c || (reader.suspended && isShown c)

/-- How far the reading has come behind a character.  A suspended sequence is dropped
at the first character that is not of ASCII. -/
def next (reader : SequenceReader) (c : Char) : SequenceReader :=
  if reader.shows c then ⟨if c.toNat < 0x80 then reader.state else .outside, true⟩
  else ⟨reader.state.next c, false⟩

/-- What is shown of the rest of a text. -/
def shown : SequenceReader → List Char → List Char
  | _, [] => []
  | reader, c :: rest =>
      if reader.shows c then c :: shown (reader.next c) rest else shown (reader.next c) rest

end SequenceReader

/-- What is shown of a text: the text without its control sequences. -/
def withoutControls (text : List Char) : List Char :=
  SequenceReader.start.shown text

example : withoutControls ['a', '\x1b', '[', '1', 'm', 'b', '\x01', 'c'] =
    ['a', 'b', 'c'] := by decide

example : withoutControls ['\x1b', '[', '\t', 'a', '\x01', 'm', 'b'] =
    ['\t', 'a', 'b'] := by decide

example : withoutControls ['\x1b', '[', '\t', 'é', '\x01', 'm', 'b'] =
    ['\t', 'é', 'm', 'b'] := by decide

example : withoutControls ['a', '\x1b', ']', '0', ';', 'b', '\n'] = ['a'] := by decide

end UrlFilter
