import DeskScript.Picture.Basic
import DeskScript.Picture.Inflate

/-! Pictures as files of chunks: a head, the compressed rows of pixels, and an end. Read are those
with eight bits to the channel whose rows are in order. Nothing is read beyond the rows. -/

namespace DeskScript.Png

open Checksum

def signature : List UInt8 := [0x89, 0x50, 0x4E, 0x47, 0x0D, 0x0A, 0x1A, 0x0A]

abbrev Kind := List UInt8

def kind (letters : String) : Kind := letters.toList.map fun c => .ofNat c.toNat

/-- Whether a reader that does not know the kind has to give up: its first letter is a capital. -/
def isCritical (k : Kind) : Bool := (k.headD 0) &&& 0x20 == 0

/-! ### Chunks -/

structure Chunk where
  kind : Kind
  content : List UInt8

def Chunk.bytes (c : Chunk) : List UInt8 :=
  bigEndian (.ofNat c.content.length) ++ c.kind ++ c.content ++ bigEndian (crc (c.kind ++ c.content))

def take? (n : Nat) (bytes : List UInt8) : Option (List UInt8 × List UInt8) :=
  let front := bytes.take n
  if front.length < n then none else some (front, bytes.drop n)

/-- The length and the kind of the chunk at the head of `bytes`, and the bytes after them. -/
def chunkHead? (bytes : List UInt8) : Option (Nat × Kind × List UInt8) := do
  let (length, bytes) ← take? 4 bytes
  let (kind, bytes) ← take? 4 bytes
  return (ofBigEndian length, kind, bytes)

/-- The chunk at the head of `bytes`, with whether its checksum is right, and the bytes after it. -/
def chunk? (bytes : List UInt8) : Option (Chunk × Bool × List UInt8) := do
  let (length, kind, bytes) ← chunkHead? bytes
  let (content, bytes) ← take? length bytes
  let (sum, bytes) ← take? 4 bytes
  return (⟨kind, content⟩, ofBigEndian sum == (crc (kind ++ content)).toNat, bytes)

/-! ### Head -/

inductive Channels where
  | gray | rgb | grayAlpha | rgba
deriving DecidableEq, Repr

namespace Channels

def count : Channels → Nat
  | .gray => 1
  | .grayAlpha => 2
  | .rgb => 3
  | .rgba => 4

def ofNumber? : UInt8 → Option Channels
  | 0 => some .gray
  | 2 => some .rgb
  | 4 => some .grayAlpha
  | 6 => some .rgba
  | _ => none

def pixelsOnto (pixels : Array Pixel) : Channels → List UInt8 → Array Pixel
  | .gray, v :: values => pixelsOnto (pixels.push ⟨v, v, v, 255⟩) .gray values
  | .grayAlpha, v :: a :: values => pixelsOnto (pixels.push ⟨v, v, v, a⟩) .grayAlpha values
  | .rgb, r :: g :: b :: values => pixelsOnto (pixels.push ⟨r, g, b, 255⟩) .rgb values
  | .rgba, r :: g :: b :: a :: values => pixelsOnto (pixels.push ⟨r, g, b, a⟩) .rgba values
  | _, _ => pixels

def pixels (channels : Channels) (values : List UInt8) : List Pixel :=
  (pixelsOnto #[] channels values).toList

/-- The pixel that is named in the content of a chunk as not to be seen. Each channel has two bytes
there, of which the second one counts. Pixels that say themselves how opaque they are have none. -/
def unseen? : Channels → List UInt8 → Option Pixel
  | .gray, _ :: v :: _ => some ⟨v, v, v, 255⟩
  | .rgb, _ :: r :: _ :: g :: _ :: b :: _ => some ⟨r, g, b, 255⟩
  | _, _ => none

end Channels

structure Head where
  width : Nat
  height : Nat
  channels : Channels

/-- The head in the content of the first chunk. -/
def head? (content : List UInt8) : Option Head := do
  let (width, content) ← take? 4 content
  let (height, content) ← take? 4 content
  let (width, height) := (ofBigEndian width, ofBigEndian height)
  match content with
  | 8 :: channels :: 0 :: 0 :: 0 :: _ =>
    if width = 0 ∨ height = 0 then none
    return ⟨width, height, ← Channels.ofNumber? channels⟩
  | _ => none

/-! ### On the way to the rows -/

/-- What chunks have told before the rows: that there is a palette, which is not needed, the pixel
that is not to be seen, and the number of the last frame. -/
structure Preamble where
  palette : Bool := false
  unseen : Option Pixel := none
  frame : Option Nat := none

/-- Whether the content is that of a palette: up to 256 colours of three bytes. -/
def isPalette (content : List UInt8) : Bool :=
  let n := content.length
  0 < n && n ≤ 768 && n % 3 == 0

/-- The number of the frame that the content describes, after the one with the number `last`. The
frame has to be as large as the picture. -/
def frame? (head : Head) (last : Option Nat) (content : List UInt8) : Option Nat := do
  let (number, content) ← take? 4 content
  let (width, content) ← take? 4 content
  let (height, content) ← take? 4 content
  let (corner, content) ← take? 8 content
  let (_, content) ← take? 4 content
  match content with
  | disposal :: blending :: _ =>
    let number := ofBigEndian number
    if number ≠ (match last with | some n => n + 1 | none => 0) then none
    else if ofBigEndian width ≠ head.width ∨ ofBigEndian height ≠ head.height then none
    else if ofBigEndian corner ≠ 0 ∨ 2 < disposal ∨ 1 < blending then none
    else return number
  | _ => none

/-- With what a sound chunk tells. A critical one has to be known, and there is no other head and no
end before the rows. -/
def Preamble.note? (head : Head) (p : Preamble) (c : Chunk) : Option Preamble :=
  if c.kind = kind "PLTE" then
    if p.palette || !isPalette c.content then none else some { p with palette := true }
  else if c.kind = kind "tRNS" then
    some { p with unseen := p.unseen <|> head.channels.unseen? c.content }
  else if c.kind = kind "fcTL" then
    (frame? head p.frame c.content).map fun number => { p with frame := some number }
  else if isCritical c.kind then none
  else some p

/-- What is told before the rows, and the bytes from their first chunk on. The rows may be those of
a frame. Chunks that are not sound are passed over if they are not critical. At most `fuel` chunks
are read. -/
def toRows? (head : Head) : (fuel : Nat) → Preamble → List UInt8 → Option (Preamble × List UInt8)
  | 0, _, _ => none
  | fuel + 1, p, bytes => do
    let (_, k, _) ← chunkHead? bytes
    if k = kind "IDAT" ∨ k = kind "fdAT" ∧ p.frame.isSome then return (p, bytes)
    if k = kind "fdAT" then none
    let (c, sound, bytes) ← chunk? bytes
    if sound then toRows? head fuel (← p.note? head c) bytes
    else if isCritical k then none
    else toRows? head fuel p bytes

/-- What the chunks of rows hold together, from the first one on, whose kind the others share. A
frame counts its chunks, beginning after `last`. After them there has to be the head of another
chunk. At most `fuel` chunks are read. -/
def data? (rows : Kind) : (fuel : Nat) → (last : Nat) → List UInt8 → Option (List UInt8)
  | 0, _, _ => none
  | fuel + 1, last, bytes => do
    let (_, k, _) ← chunkHead? bytes
    if k ≠ rows then return []
    let (c, sound, bytes) ← chunk? bytes
    if k = kind "IDAT" then
      if sound then return c.content ++ (← data? rows fuel last bytes) else none
    else
      let (number, content) ← take? 4 c.content
      if ofBigEndian number ≠ last + 1 then none
      return content ++ (← data? rows fuel (last + 1) bytes)

/-! ### Rows -/

/-- Of the neighbours to the left, above, and above to the left, the one nearest to the plane through
them. -/
def nearest (left above corner : UInt8) : UInt8 :=
  let (a, b, c) := ((left.toNat : Int), (above.toNat : Int), (corner.toNat : Int))
  let p := a + b - c
  let (da, db, dc) := ((p - a).natAbs, (p - b).natAbs, (p - c).natAbs)
  if da ≤ db ∧ da ≤ dc then left else if db ≤ dc then above else corner

def expected (filter : UInt8) (left above corner : UInt8) : UInt8 :=
  match filter with
  | 1 => left
  | 2 => above
  | 3 => .ofNat ((left.toNat + above.toNat) / 2)
  | 4 => nearest left above corner
  | _ => 0

/-- The bytes of a row in pixels of `step` bytes: what is given for each is its difference from what
the filter expects. `above` is the row before. -/
def unfilter (filter : UInt8) (step : Nat) (above : Array UInt8) (given : List UInt8) :
    Array UInt8 :=
  given.foldl (fun row difference =>
    let i := row.size
    let left := if i < step then 0 else row.getD (i - step) 0
    let corner := if i < step then 0 else above.getD (i - step) 0
    row.push (difference + expected filter left (above.getD i 0) corner)) #[]

/-- Adds the bytes of `count` rows to `done`. A row has `width` bytes in pixels of `step` bytes, with
its filter in front; `above` is the row before them. -/
def rowsOnto? (step width : Nat) : (count : Nat) → (done above : Array UInt8) → List UInt8 →
    Option (Array UInt8)
  | 0, done, _, _ => some done
  | count + 1, done, above, bytes =>
    match bytes with
    | [] => none
    | filter :: bytes =>
      let given := bytes.take width
      if given.length < width ∨ 4 < filter then none
      else
        let row := unfilter filter step above given
        rowsOnto? step width count (done ++ row) row (bytes.drop width)

/-! ### Files -/

/-- How many bytes are unpacked before the first `needed` of them are taken. A window of 32768 bytes
is kept back, for stretches may refer to it, and 8192 bytes are unpacked at a time. -/
def unpackingLimit (needed : Nat) : Nat := (needed + 32768 + 8191) / 8192 * 8192

/-- With the pixels that look like `unseen` fully transparent. -/
def hide (unseen : Option Pixel) (pixels : List Pixel) : List Pixel :=
  match unseen with
  | some u => pixels.map fun p => if p = u then { p with alpha := 0 } else p
  | none => pixels

def decode? (file : List UInt8) : Option Picture := do
  let (start, bytes) ← take? 8 file
  if start ≠ signature then none
  let (first, sound, bytes) ← chunk? bytes
  if first.kind ≠ kind "IHDR" ∨ !sound then none
  let head ← head? first.content
  let (preamble, bytes) ← toRows? head file.length {} bytes
  let (_, rows, _) ← chunkHead? bytes
  let data ← data? rows file.length (preamble.frame.getD 0) bytes
  let width := head.width * head.channels.count
  let needed := (width + 1) * head.height
  let raw ← Inflate.inflate (unpackingLimit needed) data
  if raw.size < needed then none
  let values ← rowsOnto? head.channels.count width head.height #[] #[] raw.toList
  let pixels := hide preamble.unseen (head.channels.pixels values.toList)
  Picture.ofPixels? head.width head.height pixels

def headContent (p : Picture) : List UInt8 :=
  bigEndian (.ofNat p.width) ++ bigEndian (.ofNat p.height) ++ [8, 6, 0, 0, 0]

def plainRows (p : Picture) : List UInt8 :=
  p.rows.flatMap fun row => 0 :: row.flatMap Pixel.bytes

/-- The largest number of bytes in a chunk of rows. -/
def largestContent : Nat := 2147483647

/-- The chunks of rows that hold the data together. -/
def rowChunks (data : List UInt8) : List UInt8 :=
  if data.length ≤ largestContent then Chunk.bytes ⟨kind "IDAT", data⟩
  else Chunk.bytes ⟨kind "IDAT", data.take largestContent⟩ ++ rowChunks (data.drop largestContent)
termination_by data.length
decreasing_by
  have : 0 < largestContent := by decide
  rw [List.length_drop]
  omega

/-- A file with the picture. One without pixels has none. -/
def encode? (p : Picture) : Option (List UInt8) :=
  if p.width = 0 ∨ p.height = 0 then none
  else some <| signature ++ Chunk.bytes ⟨kind "IHDR", headContent p⟩ ++
    rowChunks (Inflate.store (plainRows p)) ++ Chunk.bytes ⟨kind "IEND", []⟩

/-- Pictures in files of this kind. -/
def codec : Picture.Codec where
  read file :=
    match decode? file with
    | some p => .ok p
    | none => .error "not a file of chunks with eight bits to the channel"
  write p :=
    match encode? p with
    | some file => .ok file
    | none => .error "no pixels"

end DeskScript.Png
