/-! Sums over the windows of a table, from the sums over all that lies before a corner. -/

namespace DeskScript

/-- The sums of the first 0, 1, 2, … values, on top of `sum`. -/
def prefixSums (sum : Nat) : List Nat → List Nat
  | [] => [sum]
  | v :: values => sum :: prefixSums (sum + v) values

/-- For a row of sums and the rows below it, the sums over all rows down to each of them. -/
def stackSums (above : List Nat) : List (List Nat) → List (List Nat)
  | [] => [above]
  | row :: rows => above :: stackSums (List.zipWith (· + ·) above (prefixSums 0 row)) rows

/-- At `(x, y)`, the sum of the values whose column is before `x` and whose row is before `y`. -/
structure CornerSums where
  rows : Array (Array Nat)

namespace CornerSums

def ofTable (width : Nat) (table : List (List Nat)) : CornerSums :=
  ⟨((stackSums (List.replicate (width + 1) 0) table).map List.toArray).toArray⟩

def sumAt (s : CornerSums) (x y : Nat) : Nat := (s.rows.getD y #[]).getD x 0

/-- The sum over the window of `w` columns and `h` rows whose first corner is `(x, y)`, from the sums up
to its corners, for each of which there are 64 bits. -/
def window (s : CornerSums) (x y w h : Nat) : Float :=
  let upTo x y := (s.sumAt x y).toUInt64.toFloat
  upTo (x + w) (y + h) - upTo x (y + h) - upTo (x + w) y + upTo x y

end CornerSums

/-- The sum of some values, and that of their squares. -/
structure Sums where
  sum : Float
  squares : Float

def Sums.ofTable (table : List (List Nat)) : Sums :=
  table.flatten.foldl
    (fun s v => ⟨s.sum + Float.ofNat v, s.squares + Float.ofNat v * Float.ofNat v⟩) ⟨0, 0⟩

/-- The squares of the values of a table. -/
def squared (table : List (List Nat)) : List (List Nat) := table.map fun row => row.map fun v => v * v

@[simp] theorem length_squared (table : List (List Nat)) : (squared table).length = table.length :=
  List.length_map ..

theorem length_of_mem_squared {width : Nat} {table : List (List Nat)}
    (each : ∀ row ∈ table, row.length = width) : ∀ row ∈ squared table, row.length = width := by
  unfold squared
  rw [List.forall_mem_map]
  intro row hr
  rw [List.length_map, each row hr]

/-- The sums up to the corners of a table, and those of the squares of its values. -/
structure SumTables where
  sums : CornerSums
  squares : CornerSums

namespace SumTables

def ofTable (width : Nat) (table : List (List Nat)) : SumTables :=
  ⟨.ofTable width table, .ofTable width (squared table)⟩

def window (t : SumTables) (x y w h : Nat) : Sums :=
  ⟨t.sums.window x y w h, t.squares.window x y w h⟩

end SumTables

end DeskScript
