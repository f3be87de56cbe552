import DeskScript.Picture.Basic
import DeskScript.Picture.Window
import DeskScript.Script.Element

/-! Where a small picture is to be found in a large one. Every place gets a score, the correlation of
the brightness there with that of the small picture; the first of the best places is the find. -/

namespace DeskScript

/-- A place where a small picture was looked for: its first corner, the size of the small picture,
and how sure the find is. -/
structure Match where
  x : Nat
  y : Nat
  width : Nat
  height : Nat
  confidence : Float

namespace Match

def point (x y : Nat) : Coordinate := ⟨.ofNat x, .ofNat y⟩

def topLeft (m : Match) : Coordinate := point m.x m.y

def bottomRight (m : Match) : Coordinate := point (m.x + m.width) (m.y + m.height)

def center (m : Match) : Coordinate := point (m.x + m.width / 2) (m.y + m.height / 2)

/-! ### Scores -/

/-- A variation below this counts as none. -/
def flat : Float := 1e-6

/-- How much `n` values with these sums vary. -/
def variation (n : Float) (s : Sums) : Float := s.squares - s.sum * s.sum / n

def clampUnit (x : Float) : Float := if x < 0 then 0 else if 1 < x then 1 else x

/-- The score of a window, given the sums of the small picture and of the window, and the sum of the
products of their values. Flat pictures match where their means differ by less than 1. -/
def score (n : Float) (small window : Sums) (cross : Float32) : Float :=
  let mean := small.sum / n
  let (s, w) := (variation n small, variation n window)
  if s < flat ∨ w < flat then
    if s < flat ∧ w < flat ∧ (window.sum / n - mean).abs < 1 then 1 else 0
  else clampUnit ((cross.toFloat - mean * window.sum) / (s * w).sqrt)

def addProducts (sum : Float32) : List Nat → List Nat → Float32
  | a :: as, b :: bs => addProducts (sum + Float32.ofNat a * Float32.ofNat b) as bs
  | _, _ => sum

/-- The sum of the products of the values of the small picture with those of the rows of the large
one, from column `x` on. -/
def crossSum (x : Nat) : (sum : Float32) → (small large : List (List Nat)) → Float32
  | sum, row :: small, other :: large => crossSum x (addProducts sum (other.drop x) row) small large
  | sum, _, _ => sum

/-! ### The best place -/

/-- The places of a window of `w` columns and `h` rows in a picture of `width` columns and `height`
rows, row by row. -/
def places (width height w h : Nat) : List (Nat × Nat) :=
  (List.range (height + 1 - h)).flatMap fun y => (List.range (width + 1 - w)).map fun x => (x, y)

/-- The first of the places with the highest score, which beats the score `best` of `place`. -/
def firstBest (place : Nat × Nat) (best : Float32) :
    List ((Nat × Nat) × Float32) → (Nat × Nat) × Float32
  | [] => (place, best)
  | (p, s) :: rest => if best < s then firstBest p s rest else firstBest place best rest

/-- The places of the small picture in the large one with their scores. -/
def scores (large small : Picture) : List ((Nat × Nat) × Float32) :=
  let (largeLuma, smallLuma) := (large.luma, small.luma)
  let (w, h) := (small.width, small.height)
  let n := Float.ofNat w * Float.ofNat h
  let tables := SumTables.ofTable large.width largeLuma
  let smallSums := Sums.ofTable smallLuma
  (places large.width large.height w h).map fun (x, y) =>
    let cross := crossSum x 0 smallLuma (largeLuma.drop y)
    ((x, y), (score n smallSums (tables.window x y w h) cross).toFloat32)

/-- The best place of the small picture in the large one, however bad. There is none for a picture
without pixels or one that does not fit in. -/
def best? (large small : Picture) : Option Match :=
  if small.width = 0 ∨ small.height = 0 then none
  else if large.width < small.width ∨ large.height < small.height then none
  else match scores large small with
    | [] => none
    | (p, s) :: rest =>
      let ((x, y), confidence) := firstBest p s rest
      some ⟨x, y, small.width, small.height, confidence.toFloat⟩

/-- The best place of the small picture in the large one, if it is as sure as `threshold` says. -/
def find? (large small : Picture) (threshold : Float) : Option Match :=
  (best? large small).filter fun m => threshold ≤ m.confidence

end Match

end DeskScript
