import DeskScript.Picture.Base64
import DeskScript.Picture.Match
import DeskScript.Screen.Inquiry
import DeskScript.Text.Blank

/-! Elements on a captured screen. -/

namespace DeskScript

namespace Pattern

/-- The picture that the pattern holds. White space around its text does not count. -/
def picture (codec : Picture.Codec) (p : Pattern) : Except Failure Picture := do
  let text := (Text.trim p.data).toList.flatMap String.utf8EncodeChar
  let file ← (Base64.decode text).mapError fun f => .invalidPattern s!"base64: {f.message}"
  (codec.read file).mapError fun words => .invalidPattern s!"image: {words}"

/-- The text of a pattern that holds the picture. -/
def dataOf (codec : Picture.Codec) (picture : Picture) : Except Failure String := do
  let file ← (codec.write picture).mapError fun words => .invalidPattern s!"png encode: {words}"
  return String.ofList ((Base64.encode file).map fun b => Char.ofNat b.toNat)

def sureness (p : Pattern) : Float := p.threshold.getD usualThreshold

end Pattern

abbrev Capture := Except Failure Picture

def Capture.unavailable : Capture :=
  .error (.capture "no capture backend (enable the \x60screen-capture\x60 feature)")

/-- Looks for an element on the screen. A pattern is read before the screen is looked at. -/
def Element.findOn (codec : Picture.Codec) (capture : Capture) : Element → Sighting
  | .position p => .ok (some p)
  | .picture pattern => do
    let small ← pattern.picture codec
    let large ← capture
    return (Match.find? large small pattern.sureness).map Match.center

end DeskScript
