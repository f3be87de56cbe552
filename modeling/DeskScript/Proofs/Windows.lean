import DeskScript.Proofs.Bounds
import DeskScript.Proofs.Exactness

/-! The sums up to the corners of a table are what they should be, and the sums over windows that are had
from them are exact. -/

namespace DeskScript

/-- The value of a table in column `x` and row `y`, and zero outside of it. -/
def valueAt (table : List (List ℕ)) (x y : ℕ) : ℕ := (table.getD y []).getD x 0

/-- The sum of the values in the window of `w` columns and `h` rows whose first corner is `(x, y)`. -/
def sumOver (values : ℕ → ℕ → ℕ) (x y w h : ℕ) : ℕ :=
  ∑ row ∈ Finset.range h, ∑ column ∈ Finset.range w, values (x + column) (y + row)

/-! ### Windows put together -/

section SumOver

variable {values : ℕ → ℕ → ℕ} {bound : ℕ} (x y w h : ℕ)

theorem sumOver_add_columns (w' : ℕ) :
    sumOver values x y (w + w') h = sumOver values x y w h + sumOver values (x + w) y w' h := by
  simp only [sumOver, Finset.sum_range_add, Finset.sum_add_distrib, Nat.add_assoc]

theorem sumOver_add_rows (h' : ℕ) :
    sumOver values x y w (h + h') = sumOver values x y w h + sumOver values x (y + h) w h' := by
  simp only [sumOver, Finset.sum_range_add, Nat.add_assoc]

/-- A window in another at the same corner has no larger sum. -/
theorem sumOver_mono {w h w' h' : ℕ} (hw : w ≤ w') (hh : h ≤ h') :
    sumOver values x y w h ≤ sumOver values x y w' h' := by
  obtain ⟨right, rfl⟩ := Nat.exists_eq_add_of_le hw
  obtain ⟨below, rfl⟩ := Nat.exists_eq_add_of_le hh
  rw [sumOver_add_rows, sumOver_add_columns]
  omega

theorem sumOver_le (each : ∀ x y, values x y ≤ bound) : sumOver values x y w h ≤ bound * (w * h) := by
  have row (y : ℕ) : ∑ column ∈ Finset.range w, values (x + column) y ≤ w * bound := by
    simpa using Finset.sum_le_card_nsmul (Finset.range w) _ bound fun column _ => each (x + column) y
  calc sumOver values x y w h
      ≤ h * (w * bound) := by
        simpa [sumOver] using Finset.sum_le_card_nsmul (Finset.range h) _ _ fun r _ => row (y + r)
    _ = bound * (w * h) := by ring

end SumOver

namespace CornerSums

/-! ### Sums up to corners -/

theorem getD_prefixSums (sum : ℕ) {values : List ℕ} {x : ℕ} (hx : x ≤ values.length) :
    (prefixSums sum values).getD x 0 = sum + ∑ column ∈ Finset.range x, values.getD column 0 := by
  induction values generalizing sum x with
  | nil =>
    obtain rfl : x = 0 := by simpa using hx
    simp [prefixSums]
  | cons v values ih =>
    cases x with
    | zero => simp [prefixSums]
    | succ x =>
      have rest := ih (sum + v) (Nat.le_of_succ_le_succ hx)
      rw [prefixSums, List.getD_cons_succ, rest, Finset.sum_range_succ']
      simp only [List.getD_cons_succ, List.getD_cons_zero]
      omega

variable {width : ℕ} {table : List (List ℕ)} {x y w h : ℕ}

theorem getD_stackSums (each : ∀ row ∈ table, row.length = width) {above : List ℕ}
    (first : above.length = width + 1) (hx : x ≤ width) (hy : y ≤ table.length) :
    ((stackSums above table).getD y []).getD x 0 = above.getD x 0 + sumOver (valueAt table) 0 0 x y := by
  induction table generalizing above y with
  | nil =>
    obtain rfl : y = 0 := by simpa using hy
    simp [stackSums, sumOver]
  | cons row table ih =>
    cases y with
    | zero => simp [stackSums, sumOver]
    | succ y =>
      obtain ⟨own, others⟩ := List.forall_mem_cons.mp each
      have length : (prefixSums 0 row).length = width + 1 := by rw [length_prefixSums, own]
      have next : (List.zipWith (· + ·) above (prefixSums 0 row)).length = width + 1 := by
        rw [List.length_zipWith, first, length, Nat.min_self]
      have added : (List.zipWith (· + ·) above (prefixSums 0 row)).getD x 0 =
          above.getD x 0 + ∑ column ∈ Finset.range x, row.getD column 0 := by
        rw [← Nat.zero_add (∑ column ∈ _, _), ← getD_prefixSums 0 (own ▸ hx)]
        rw [List.getD_eq_getElem _ _ (by omega), List.getD_eq_getElem _ _ (by omega),
          List.getD_eq_getElem _ _ (by omega), List.getElem_zipWith]
      have split : sumOver (valueAt (row :: table)) 0 0 x (y + 1) =
          sumOver (valueAt table) 0 0 x y + ∑ column ∈ Finset.range x, row.getD column 0 := by
        simp [sumOver, valueAt, Finset.sum_range_succ']
      rw [stackSums, List.getD_cons_succ, ih others next (Nat.le_of_succ_le_succ hy), added, split]
      omega

/-- At each corner stands the sum of the values whose column and row are before it. -/
theorem sumAt_ofTable (each : ∀ row ∈ table, row.length = width) (hx : x ≤ width)
    (hy : y ≤ table.length) :
    (ofTable width table).sumAt x y = sumOver (valueAt table) 0 0 x y := by
  let zeros := List.replicate (width + 1) 0
  have none : zeros.getD x 0 = 0 := by simp [zeros, List.getD]
  have lists : (ofTable width table).sumAt x y = ((stackSums zeros table).getD y []).getD x 0 := by
    simp [sumAt, ofTable, zeros, List.getD]
  rw [lists, getD_stackSums each (List.length_replicate ..) hx hy, none, Nat.zero_add]

/-! ### Sums over windows -/

/-- The numbers on the way from the sums up to the corners of a window to the sum over it. -/
def steps {α : Type} [Add α] [Sub α] (s : CornerSums) (number : ℕ → α) (x y w h : ℕ) : List α :=
  let whole := number (s.sumAt (x + w) (y + h))
  let left := number (s.sumAt x (y + h))
  let upper := number (s.sumAt (x + w) y)
  let both := number (s.sumAt x y)
  [whole, left, upper, both, whole - left, whole - left - upper, whole - left - upper + both]

/-- The sums up to the corners of a window give that over it, and no number on the way to it is rounded. -/
structure ExactOver (s : CornerSums) (values : ℕ → ℕ → ℕ) (x y w h : ℕ) : Prop where
  difference : (s.sumAt (x + w) (y + h) : ℤ) - s.sumAt x (y + h) - s.sumAt (x + w) y + s.sumAt x y =
    sumOver values x y w h
  steps : List.Forall₂ Exactly (s.steps Nat.cast x y w h) (s.steps (·.toUInt64.toFloat) x y w h)
  window : Exactly (sumOver values x y w h) (s.window x y w h)

variable {s : CornerSums} {values : ℕ → ℕ → ℕ} {height : ℕ}

/-- The corners of a window part what is before the last of them into four windows. -/
theorem exists_parts (sums : ∀ x ≤ width, ∀ y ≤ height, s.sumAt x y = sumOver values 0 0 x y)
    (hx : x + w ≤ width) (hy : y + h ≤ height) : ∃ right below,
      s.sumAt (x + w) y = s.sumAt x y + right ∧ s.sumAt x (y + h) = s.sumAt x y + below ∧
        s.sumAt (x + w) (y + h) = s.sumAt x y + right + (below + sumOver values x y w h) := by
  have hx' : x ≤ width := by omega
  have hy' : y ≤ height := by omega
  refine ⟨sumOver values x 0 w y, sumOver values 0 y x h, ?_, ?_, ?_⟩
  · rw [sums x hx' y hy', sums (x + w) hx y hy', sumOver_add_columns, Nat.zero_add]
  · rw [sums x hx' y hy', sums x hx' (y + h) hy, sumOver_add_rows, Nat.zero_add]
  · rw [sums x hx' y hy', sums (x + w) hx (y + h) hy, sumOver_add_rows, sumOver_add_columns,
      sumOver_add_columns, Nat.zero_add, Nat.zero_add]

theorem exactOver (sums : ∀ x ≤ width, ∀ y ≤ height, s.sumAt x y = sumOver values 0 0 x y)
    (few : sumOver values 0 0 width height < 2 ^ 53) (hx : x + w ≤ width) (hy : y + h ≤ height) :
    s.ExactOver values x y w h := by
  obtain ⟨right, below, upper, left, whole⟩ := exists_parts sums hx hy
  have few : s.sumAt (x + w) (y + h) < 2 ^ 53 := by
    rw [sums (x + w) hx (y + h) hy]
    exact Nat.lt_of_le_of_lt (sumOver_mono 0 0 hx hy) few
  have difference : (s.sumAt (x + w) (y + h) : ℤ) - s.sumAt x (y + h) - s.sumAt (x + w) y + s.sumAt x y =
      sumOver values x y w h := by omega
  -- The second difference may be negative, but no further from zero than a sum up to a corner.
  have wholeForm := Exactly.hasForm_toFloat few
  have leftForm := Exactly.hasForm_toFloat (by omega : s.sumAt x (y + h) < 2 ^ 53)
  have upperForm := Exactly.hasForm_toFloat (by omega : s.sumAt (x + w) y < 2 ^ 53)
  have bothForm := Exactly.hasForm_toFloat (by omega : s.sumAt x y < 2 ^ 53)
  have first := wholeForm.sub leftForm (by rw [abs_lt]; omega)
  have second := first.sub upperForm (by rw [abs_lt]; omega)
  have third := second.add bothForm (by rw [abs_lt]; omega)
  refine ⟨difference, ?_, difference ▸ third.exactly⟩
  exact .cons wholeForm.exactly (.cons leftForm.exactly (.cons upperForm.exactly (.cons bothForm.exactly
    (.cons first.exactly (.cons second.exactly (.cons third.exactly .nil))))))

end CornerSums

/-! ### Brightnesses -/

/-- A table of brightnesses: rows of `width` values from 0 to 255. -/
structure IsGray (width : ℕ) (table : List (List ℕ)) : Prop where
  length : ∀ row ∈ table, row.length = width
  le : ∀ row ∈ table, ∀ v ∈ row, v ≤ 255

theorem Picture.isGray_luma (p : Picture) : IsGray p.width p.luma where
  length _ := Picture.length_of_mem_luma
  le := by
    unfold luma
    rw [List.forall_mem_map]
    intro row _
    rw [List.forall_mem_map]
    intro pixel _
    exact pixel.luma_le

theorem IsGray.valueAt_le {width : ℕ} {table : List (List ℕ)} (gray : IsGray width table) (x y : ℕ) :
    valueAt table x y ≤ 255 := by
  unfold valueAt
  rw [List.getD_eq_getElem?_getD, List.getD_eq_getElem?_getD]
  cases hr : table[y]? with
  | none => simp
  | some row =>
    rw [Option.getD_some]
    cases hv : row[x]? with
    | none => simp
    | some v => exact gray.le row (List.mem_of_getElem? hr) v (List.mem_of_getElem? hv)

theorem valueAt_squared (table : List (List ℕ)) (x y : ℕ) :
    valueAt (squared table) x y = valueAt table x y ^ 2 := by
  simp only [valueAt, squared, List.getD_eq_getElem?_getD, List.getElem?_map]
  cases table[y]? with
  | none => simp
  | some row => cases hv : row[x]? <;> simp [hv, Nat.pow_two]

namespace SumTables

/-- On a screen with less than 2^53 / 255² pixels, and for each window in it, up to its last column and row,
what is calculated with floats is the sum of the brightnesses and that of their squares: the sums up to the
corners are there, their difference is the sum over the window, and no number on the way is rounded. -/
theorem adds_exactly {width : ℕ} {table : List (List ℕ)} (gray : IsGray width table)
    (few : 255 ^ 2 * (width * table.length) < 2 ^ 53) {x y w h : ℕ} (hx : x + w ≤ width)
    (hy : y + h ≤ table.length) :
    let tables := ofTable width table
    let square x y := valueAt table x y ^ 2
    tables.window? x y w h = some (tables.window x y w h) ∧
    Exactly (sumOver (valueAt table) x y w h) (tables.window x y w h).sum ∧
    Exactly (sumOver square x y w h) (tables.window x y w h).squares ∧
    tables.sums.ExactOver (valueAt table) x y w h ∧ tables.squares.ExactOver square x y w h := by
  intro tables square
  have sums : tables.sums.ExactOver (valueAt table) x y w h := by
    refine CornerSums.exactOver (fun x hx y hy => CornerSums.sumAt_ofTable gray.length hx hy) ?_ hx hy
    have most := sumOver_le 0 0 width table.length gray.valueAt_le
    omega
  have squares : tables.squares.ExactOver square x y w h := by
    have values : valueAt (squared table) = square := funext₂ (valueAt_squared table)
    have corners (x : ℕ) (hx : x ≤ width) (y : ℕ) (hy : y ≤ table.length) :
        tables.squares.sumAt x y = sumOver square 0 0 x y := by
      rw [← values]
      exact CornerSums.sumAt_ofTable (length_of_mem_squared gray.length) hx (by rwa [length_squared])
    refine CornerSums.exactOver corners ?_ hx hy
    exact Nat.lt_of_le_of_lt
      (sumOver_le 0 0 width table.length fun x y => Nat.pow_le_pow_left (gray.valueAt_le x y) 2) few
  exact ⟨window?_ofTable gray.length hx hy, sums.window, squares.window, sums, squares⟩

/-- The last row of a picture, but for its first column. What is left when the sums before it are taken away
is negative until what was taken twice is added. -/
theorem adds_exactly_corner :
    let gray v : Pixel := ⟨v, v, v, 255⟩
    let screen : Picture := ⟨3, 2, [gray 255, gray 0, gray 10, gray 20, gray 30, gray 40], rfl⟩
    let tables := ofTable screen.width screen.luma
    IsGray screen.width screen.luma ∧ 255 ^ 2 * (screen.width * screen.luma.length) < 2 ^ 53 ∧
      1 + 2 ≤ screen.width ∧ 1 + 1 ≤ screen.luma.length ∧
      Exactly 70 (tables.window 1 1 2 1).sum ∧ Exactly 2500 (tables.window 1 1 2 1).squares ∧
      tables.sums.steps Nat.cast 1 1 2 1 = [355, 275, 265, 255, 80, (-185 : ℤ), 70] := by
  intro gray screen tables
  have small : 255 ^ 2 * (screen.width * screen.luma.length) < 2 ^ 53 := by decide
  have right : 1 + 2 ≤ screen.width := by decide
  have lower : 1 + 1 ≤ screen.luma.length := by decide
  obtain ⟨-, sum, squares, -⟩ := adds_exactly screen.isGray_luma small right lower
  rw [(by decide : sumOver (valueAt screen.luma) 1 1 2 1 = 70)] at sum
  rw [(by decide : sumOver (fun x y => valueAt screen.luma x y ^ 2) 1 1 2 1 = 2500)] at squares
  exact ⟨screen.isGray_luma, small, right, lower, sum, squares, by decide⟩

end SumTables

end DeskScript
