/-! Pictures: pixels in rows from the top down. -/

namespace DeskScript

structure Pixel where
  red : UInt8
  green : UInt8
  blue : UInt8
  alpha : UInt8
deriving DecidableEq, Inhabited, Repr

def Pixel.bytes (p : Pixel) : List UInt8 := [p.red, p.green, p.blue, p.alpha]

/-- How bright the pixel looks, from 0 to 255. How opaque it is does not count. -/
def Pixel.luma (p : Pixel) : Nat :=
  (2126 * p.red.toNat + 7152 * p.green.toNat + 722 * p.blue.toNat) / 10000

/-- A picture. Its pixels are in the order of reading. -/
structure Picture where
  width : Nat
  height : Nat
  pixels : List Pixel
  length_pixels : pixels.length = width * height
deriving DecidableEq

namespace Picture

/-- The picture with these pixels, if there are as many as its sides say. -/
def ofPixels? (width height : Nat) (pixels : List Pixel) : Option Picture :=
  if h : pixels.length = width * height then some ⟨width, height, pixels, h⟩ else none

def rowsOf (width : Nat) : (count : Nat) → List α → List (List α)
  | 0, _ => []
  | count + 1, values => values.take width :: rowsOf width count (values.drop width)

def rows (p : Picture) : List (List Pixel) := rowsOf p.width p.height p.pixels

def luma (p : Picture) : List (List Nat) := p.rows.map fun row => row.map Pixel.luma

def bytes (p : Picture) : List UInt8 := p.pixels.flatMap Pixel.bytes

theorem length_rowsOf (width count : Nat) (values : List α) :
    (rowsOf width count values).length = count := by
  induction count generalizing values with
  | zero => rfl
  | succ count ih => rw [rowsOf, List.length_cons, ih]

theorem length_of_mem_rowsOf {width count : Nat} {values : List α}
    (whole : values.length = width * count) :
    ∀ row ∈ rowsOf width count values, row.length = width := by
  induction count generalizing values with
  | zero => simp [rowsOf]
  | succ count ih =>
    rw [Nat.mul_succ] at whole
    have first : (values.take width).length = width := by
      rw [List.length_take]
      omega
    have rest : (values.drop width).length = width * count := by
      rw [List.length_drop]
      omega
    rw [rowsOf, List.forall_mem_cons]
    exact ⟨first, ih rest⟩

theorem flatten_rowsOf {width count : Nat} {values : List α} (whole : values.length = width * count) :
    (rowsOf width count values).flatten = values := by
  induction count generalizing values with
  | zero => simpa [rowsOf] using whole
  | succ count ih =>
    rw [Nat.mul_succ] at whole
    have rest : (values.drop width).length = width * count := by
      rw [List.length_drop]
      omega
    rw [rowsOf, List.flatten_cons, ih rest, List.take_append_drop]

@[simp] theorem length_rows (p : Picture) : p.rows.length = p.height := length_rowsOf ..

/-- Each row has as many pixels as there are columns. -/
theorem length_of_mem_rows {p : Picture} {row : List Pixel} (h : row ∈ p.rows) :
    row.length = p.width := length_of_mem_rowsOf p.length_pixels row h

theorem flatten_rows (p : Picture) : p.rows.flatten = p.pixels := flatten_rowsOf p.length_pixels

/-! ### Files -/

/-- A way to keep pictures in files. Where it fails it tells in a few words why. -/
structure Codec where
  read : List UInt8 → Except String Picture
  write : Picture → Except String (List UInt8)

/-- Whether what is written of a picture is read as that picture, if it has pixels and no more of them to
a side than a word of four bytes can tell. -/
def Codec.Faithful (c : Codec) : Prop :=
  ∀ p file, 1 ≤ p.width → p.width < UInt32.size → 1 ≤ p.height → p.height < UInt32.size →
    c.write p = .ok file → c.read file = .ok p

end Picture

theorem Pixel.luma_le (p : Pixel) : p.luma ≤ 255 := by
  have r := p.red.toNat_lt
  have g := p.green.toNat_lt
  have b := p.blue.toNat_lt
  unfold Pixel.luma
  omega

end DeskScript
