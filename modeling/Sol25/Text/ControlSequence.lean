/-!
The control sequences of a terminal: characters that steer the display instead of appearing on it. A
text is shown on plain output without them. Outside a sequence the plain characters and the layout
are shown, and the other controls are not. An escape opens a sequence, wherever it stands, and how
the sequence goes on decides where it ends.
-/

set_option autoImplicit false
set_option relaxedAutoImplicit false

namespace Sol25.Text

/-- Where in a control sequence a terminal stands. -/
inductive ControlState where
  /-- Outside of any sequence. -/
  | outside
  /-- Right after the escape. -/
  | escaped
  /-- In a short sequence, after its first blank or punctuation. -/
  | short
  /-- In a sequence with parameters, such as one that chooses a colour. -/
  | parameters
  /-- In a command to the system around the terminal. -/
  | system
  /-- At the start of a command to a device. -/
  | device
  /-- Among the parameters of a command to a device. -/
  | deviceParameters
  /-- After the parameters of a command to a device. -/
  | deviceIntermediate
  /-- In a string that the terminal passes on or ignores. -/
  | string
deriving DecidableEq

/-- Tab, line feed, form feed and carriage return: the controls that belong to the layout. -/
def isLayout (c : Char) : Bool := c = '\t' || c = '\n' || c = '\x0c' || c = '\r'

/-- Whether `c` is one of the characters from `first` to `last`. -/
def isBetween (first last c : Char) : Bool := first ≤ c && c ≤ last

/-- Whether the string terminator `9C` is among the bytes of `c` in UTF-8. A terminal looks for the
byte, so it finds one inside of other characters too. -/
def holdsTerminator (c : Char) : Bool := (String.utf8EncodeChar c).contains 0x9C

namespace ControlState

/-- Whether the character appears. Of the sequences, those that carry no string let the layout
through. -/
def shows (state : ControlState) (c : Char) : Bool :=
  match state with
  | outside => isLayout c || (' ' ≤ c && c ≠ '\x7f')
  | escaped | short | parameters => isLayout c
  | system | device | deviceParameters | deviceIntermediate | string => false

/-- The state after a character that stays within the sequence or ends it. -/
def next (state : ControlState) (c : Char) : ControlState :=
  match state with
  | outside => outside
  | escaped =>
    if c = '[' then parameters
    else if c = ']' then system
    else if c = 'P' then device
    else if c = 'X' || c = '^' || c = '_' then string
    else if isBetween ' ' '/' c then short
    else if isBetween '0' '~' c then outside
    else escaped
  | short => if isBetween '0' '~' c then outside else short
  | parameters => if isBetween '@' '~' c then outside else parameters
  | system => if c = '\x07' then outside else system
  | device =>
    if isBetween ' ' '/' c then deviceIntermediate
    else if isBetween '0' '?' c then deviceParameters
    else if isBetween '@' '~' c then string
    else device
  | deviceParameters =>
    if isBetween ' ' '/' c then deviceIntermediate
    else if isBetween '<' '~' c then string
    else deviceParameters
  | deviceIntermediate => if isBetween '0' '~' c then string else deviceIntermediate
  | string => if holdsTerminator c then outside else string

/-- The state after a character that does not appear. An escape starts anew in every state, and the
two cancelling controls end every sequence. -/
def step (state : ControlState) (c : Char) : ControlState :=
  if c = '\x1b' then escaped
  else if c = '\x18' || c = '\x1a' then outside
  else state.next c

/-- What appears of a text that begins in `state`. A character that appears ends its sequence. -/
def shown (state : ControlState) : List Char → List Char
  | [] => []
  | c :: rest => if state.shows c then c :: shown outside rest else shown (state.step c) rest

end ControlState

/-- The text without its control sequences and controls. -/
def withoutControls (text : List Char) : List Char := ControlState.outside.shown text

end Sol25.Text
