import DeskScript.Text.Blank
import DeskScript.Text.Lowercase

/-! Keys of the keyboard and the names by which scripts call them. -/

namespace DeskScript

/-- A key: one of the named keys, a function key, or the key that types a character. -/
inductive Key where
  | enter | tab | escape | space | backspace | delete | home | finish | pageUp | pageDown
  | capsLock | up | down | left | right | control | shift | alt | super
  | function (number : Nat)
  | char (c : Char)
deriving DecidableEq, Repr

namespace Key

/-- The key with a name of its own, given in small letters. -/
def named? : String → Option Key
  | "enter" | "return" => some .enter
  | "tab" => some .tab
  | "esc" | "escape" => some .escape
  | "space" => some .space
  | "backspace" => some .backspace
  | "delete" | "del" => some .delete
  | "home" => some .home
  | "end" => some .finish
  | "pageup" => some .pageUp
  | "pagedown" => some .pageDown
  | "capslock" => some .capsLock
  | "up" => some .up
  | "down" => some .down
  | "left" => some .left
  | "right" => some .right
  | "ctrl" | "control" => some .control
  | "shift" => some .shift
  | "alt" => some .alt
  | "win" | "windows" | "meta" | "cmd" | "super" => some .super
  | _ => none

def decimal? (cs : List Char) : Option Nat :=
  if cs.isEmpty || !cs.all Char.isDigit then none
  else some (cs.foldl (fun n c => 10 * n + (c.toNat - '0'.toNat)) 0)

/-- The number from 0 to 255 that `cs` spells: decimal digits, after a plus sign or none. -/
def smallNumber? (cs : List Char) : Option Nat :=
  (decimal? (match cs with | '+' :: rest => rest | _ => cs)).filter (· ≤ 255)

def function? : List Char → Option Key
  | 'f' :: number => ((smallNumber? number).filter fun n => 1 ≤ n && n ≤ 12).map .function
  | _ => none

def single? : List Char → Option Key
  | [c] => some (.char (Text.asciiSmallLetter c))
  | _ => none

/-- The key called `name`. White space around the name does not count, nor does the case of a named
or a function key; any one character names its own key. -/
def ofName? (name : String) : Option Key :=
  let small := Text.lowercase (Text.trim name)
  named? small <|> function? small.toList <|> single? (Text.trimBlank name.toList)

/-- The keyboard's own word for a key; none for a key that types a character. -/
def keyboardName? : Key → Option String
  | .enter => some "Return"
  | .tab => some "Tab"
  | .escape => some "Escape"
  | .space => some "Space"
  | .backspace => some "Backspace"
  | .delete => some "Delete"
  | .home => some "Home"
  | .finish => some "End"
  | .pageUp => some "PageUp"
  | .pageDown => some "PageDown"
  | .capsLock => some "CapsLock"
  | .up => some "UpArrow"
  | .down => some "DownArrow"
  | .left => some "LeftArrow"
  | .right => some "RightArrow"
  | .control => some "Control"
  | .shift => some "Shift"
  | .alt => some "Alt"
  | .super => some "Meta"
  | .function n => some s!"F{n}"
  | .char _ => none

end Key

end DeskScript
