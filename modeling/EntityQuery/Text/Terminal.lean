/-
# Terminal text

Text for a terminal carries escape sequences that set its look.  This file holds what is left of such
text where there is no terminal: the characters that a terminal would show.

A terminal reads its input character by character in one of several modes.  Sequences that are cut
short take the characters behind them with them, until a final character or another escape ends
them.  Line ends and tabs inside a sequence are carried out at once; after one of them text is shown
again, and the mode counts once more at the next character that is not shown.
-/

namespace EntityQuery.Text.Terminal

/-- What a terminal takes the next character for. -/
inductive Mode where
  /-- Text to show. -/
  | text
  /-- The first character behind an escape. -/
  | escape
  /-- The end of a short sequence. -/
  | escapeTail
  /-- The start of a control sequence. -/
  | control
  /-- The parameters of a control sequence. -/
  | controlParameters
  /-- The end of a control sequence. -/
  | controlTail
  /-- The end of a malformed control sequence. -/
  | controlSkipped
  /-- The start of a device control string. -/
  | device
  /-- The parameters of a device control string. -/
  | deviceParameters
  /-- The last characters before the data of a device control string. -/
  | deviceTail
  /-- The rest of a malformed device control string. -/
  | deviceSkipped
  /-- The data of a device control string. -/
  | deviceData
  /-- A command to the system around the terminal, such as the title of its window. -/
  | command
  /-- A string that no terminal shows. -/
  | string
deriving DecidableEq, Repr, Inhabited

/-- Whether a code lies within bounds. -/
def within (low high n : Nat) : Bool :=
  low ≤ n && n ≤ high

/-- The mode behind an ASCII character that neither cancels a sequence nor starts one. -/
def Mode.afterPlain (mode : Mode) (n : Nat) : Mode :=
  match mode with
  | text => text
  | escape =>
    if within 0x20 0x2F n then escapeTail
    else if n = 0x5B then control
    else if n = 0x5D then command
    else if n = 0x50 then device
    else if n = 0x58 || n = 0x5E || n = 0x5F then string
    else if within 0x30 0x7E n then text
    else escape
  | escapeTail => if within 0x30 0x7E n then text else escapeTail
  | control =>
    if within 0x20 0x2F n then controlTail
    else if within 0x30 0x3F n then controlParameters
    else if within 0x40 0x7E n then text
    else control
  | controlParameters =>
    if within 0x20 0x2F n then controlTail
    else if within 0x3C 0x3F n then controlSkipped
    else if within 0x40 0x7E n then text
    else controlParameters
  | controlTail =>
    if within 0x30 0x3F n then controlSkipped
    else if within 0x40 0x7E n then text
    else controlTail
  | controlSkipped => if within 0x40 0x7E n then text else controlSkipped
  | device =>
    if within 0x20 0x2F n then deviceTail
    else if within 0x30 0x3F n then deviceParameters
    else if within 0x40 0x7E n then deviceData
    else device
  | deviceParameters =>
    if within 0x20 0x2F n then deviceTail
    else if within 0x3C 0x3F n then deviceSkipped
    else if within 0x40 0x7E n then deviceData
    else deviceParameters
  | deviceTail =>
    if within 0x30 0x3F n then deviceSkipped
    else if within 0x40 0x7E n then deviceData
    else deviceTail
  | deviceSkipped => deviceSkipped
  | deviceData => deviceData
  | command => if n = 0x07 then text else command
  | string => string

/-- The mode that a character leads to from everywhere. -/
def Mode.forced? (n : Nat) : Option Mode :=
  if n = 0x18 || n = 0x1A then some text
  else if n = 0x1B then some escape
  else none

/-- Whether the encoding of a character holds the byte that ends a string. -/
def endsString (c : Char) : Bool :=
  (String.utf8EncodeChar c).contains 0x9C

/-- Whether a terminal waits for the byte that ends a string.  A command to the system takes this byte
as part of its text. -/
def Mode.awaitsEnd : Mode → Bool
  | deviceSkipped | deviceData | string => true
  | _ => false

/-- The mode behind a character. -/
def Mode.after (mode : Mode) (c : Char) : Mode :=
  if 0x80 ≤ c.toNat then
    if mode.awaitsEnd && endsString c then text else mode
  else (forced? c.toNat).getD (mode.afterPlain c.toNat)

/-- Whether a character moves the place where text is shown. -/
def isLayout (c : Char) : Bool :=
  c = '\t' || c = '\n' || c = '\x0c' || c = '\r'

/-- Whether a character shows when it is met as text. -/
def isShown (c : Char) : Bool :=
  isLayout c || within 0x20 0x7E c.toNat || 0x80 ≤ c.toNat

/-- Whether a character shows in a mode.  Control sequences carry layout characters out, strings
do not. -/
def Mode.shows (mode : Mode) (c : Char) : Bool :=
  match mode with
  | text => isShown c
  | escape | escapeTail | control | controlParameters | controlTail | controlSkipped => isLayout c
  | _ => false

/-- A terminal that reads its input. -/
structure Screen where
  mode : Mode := .text
  /-- Whether the last character was shown, so that the next one is met as text. -/
  showing : Bool := false
deriving DecidableEq, Repr, Inhabited

/-- The screen behind a character that is shown.  One beyond ASCII ends every sequence. -/
def Screen.shown (mode : Mode) (c : Char) : Screen :=
  { mode := if 0x80 ≤ c.toNat then .text else mode, showing := true }

/-- The screen behind a character, and whether the character is shown. -/
def Screen.step (screen : Screen) (c : Char) : Screen × Bool :=
  if screen.showing && isShown c then (.shown screen.mode c, true)
  else
    let mode := if screen.showing then (Mode.forced? c.toNat).getD screen.mode else screen.mode
    if mode.shows c then (.shown (mode.after c) c, true)
    else ({ mode := mode.after c, showing := false }, false)

/-- The characters that a terminal shows. -/
def shownChars (screen : Screen) : List Char → List Char
  | [] => []
  | c :: cs =>
    let (next, visible) := screen.step c
    if visible then c :: shownChars next cs else shownChars next cs

/-- The text that a terminal shows. -/
def plain (s : String) : String :=
  String.ofList (shownChars {} s.toList)

/-- Text in bold. -/
def bold (s : String) : String :=
  "\x1b[1m" ++ s ++ "\x1b[0m"

end EntityQuery.Text.Terminal
