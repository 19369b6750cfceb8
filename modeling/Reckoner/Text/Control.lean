/-! Text made for a terminal, as a file or a pipe takes it: without control characters
and without the sequences that an escape character begins. Only characters that end a
sequence matter here, not what the sequence asks for.

Line breaks, tabs and form feeds are shown. In the first part of a sequence they also
suspend it: what follows is shown until the next control character, behind which the
sequence goes on, unless a character beyond ASCII has ended it. -/

namespace Reckoner.Text

namespace Control

def escape : Char := '\x1b'

def bell : Char := '\x07'

/-- These characters give up any sequence. -/
def cancels (c : Char) : Bool := c == '\x18' || c == '\x1a'

def isBreak (c : Char) : Bool := c == '\t' || c == '\n' || c == '\x0c' || c == '\r'

def isShown (c : Char) : Bool := isBreak c || (0x20 ≤ c.toNat && c.toNat != 0x7F)

def isBetween (first last : Nat) (c : Char) : Bool := first ≤ c.toNat && c.toNat ≤ last

/-- The byte that ends a string, alone or inside a character. -/
def terminator : UInt8 := 0x9C

inductive Sequence
  | escaped
  | intermediate
  | parameters
  | deviceEntry
  | deviceParameters
  | deviceIntermediate
  | string
  | command
  deriving DecidableEq

inductive State
  | text
  | inside (s : Sequence)
  | suspended (s : Sequence)
  deriving DecidableEq

namespace Sequence

/-- A break is shown in these. -/
def canBeSuspended : Sequence → Bool
  | escaped | intermediate | parameters => true
  | _ => false

/-- What the character behind an escape character begins. -/
def afterEscape (c : Char) : State :=
  if c = '[' then .inside parameters
  else if c = ']' then .inside command
  else if c = 'P' then .inside deviceEntry
  else if c = 'X' ∨ c = '^' ∨ c = '_' then .inside string
  else if isBetween 0x20 0x2F c then .inside intermediate
  else if isBetween 0x30 0x7E c then .text
  else .inside escaped

/-- The state after a character that is no break, escape or cancelling character. -/
def next : Sequence → Char → State
  | escaped, c => afterEscape c
  | intermediate, c => if isBetween 0x30 0x7E c then .text else .inside intermediate
  | parameters, c => if isBetween 0x40 0x7E c then .text else .inside parameters
  | deviceEntry, c =>
    if isBetween 0x20 0x2F c then .inside deviceIntermediate
    else if isBetween 0x30 0x3F c then .inside deviceParameters
    else if isBetween 0x40 0x7E c then .inside string
    else .inside deviceEntry
  | deviceParameters, c =>
    if isBetween 0x20 0x2F c then .inside deviceIntermediate
    else if isBetween 0x3C 0x7E c then .inside string
    else .inside deviceParameters
  | deviceIntermediate, c =>
    if isBetween 0x30 0x7E c then .inside string else .inside deviceIntermediate
  | string, c =>
    if (String.utf8EncodeChar c).contains terminator then .text else .inside string
  | command, c => if c = bell then .text else .inside command

end Sequence

namespace State

def next (s : State) (c : Char) : State :=
  if c = escape then .inside .escaped
  else if cancels c then .text
  else
    match s with
    | text => .text
    | inside q => if q.canBeSuspended && isBreak c then .suspended q else q.next c
    | suspended q =>
      if !isShown c then .inside q else if c.toNat < 0x80 then .suspended q else .text

def shows (s : State) (c : Char) : Bool :=
  match s with
  | text | suspended _ => isShown c
  | inside q => q.canBeSuspended && isBreak c

def shown (s : State) : List Char → List Char
  | [] => []
  | c :: cs => if s.shows c then c :: (s.next c).shown cs else (s.next c).shown cs

end State

end Control

def withoutControls (cs : List Char) : List Char := Control.State.text.shown cs

/-- Text that a terminal shows in another colour. -/
def highlight (s : String) : String := "\x1b[33m" ++ s ++ "\x1b[0m"

end Reckoner.Text
