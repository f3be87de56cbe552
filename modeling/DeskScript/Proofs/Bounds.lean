import DeskScript.Screen.Lookup
import Mathlib.Algebra.Group.Nat.Defs
import Mathlib.Tactic.Common

/-! What is read of pictures while one is looked for in another lies in them, and so does the find. -/

namespace DeskScript

/-! ### Pixels -/

namespace Picture

/-- The brightness of the pixel in column `x` and row `y`, if there is one. -/
def lumaAt? (p : Picture) (x y : Nat) : Option Nat :=
  if x < p.width then p.pixels[y * p.width + x]?.map Pixel.luma else none

theorem getElem?_rowsOf {α : Type} (width count : Nat) (values : List α) (y : Nat) :
    (rowsOf width count values)[y]? =
      if y < count then some ((values.drop (y * width)).take width) else none := by
  induction count generalizing values y with
  | zero => rfl
  | succ count ih =>
    cases y with
    | zero => simp [rowsOf]
    | succ y => simp [rowsOf, ih, Nat.succ_mul, Nat.add_comm]

theorem length_luma (p : Picture) : p.luma.length = p.height := by
  rw [luma, List.length_map, length_rows]

/-- Each row of brightnesses has as many of them as the picture has columns. -/
theorem length_of_mem_luma {p : Picture} {row : List Nat} (h : row ∈ p.luma) :
    row.length = p.width := by
  obtain ⟨pixels, there, rfl⟩ := List.mem_map.mp h
  rw [List.length_map, length_of_mem_rows there]

/-- The table of brightnesses holds that of each pixel at its place. -/
theorem lumaAt?_eq (p : Picture) (x y : Nat) : p.lumaAt? x y = p.luma[y]?.bind (·[x]?) := by
  rw [luma, Picture.rows, List.getElem?_map, getElem?_rowsOf, lumaAt?]
  by_cases lower : y < p.height
  · rw [if_pos lower]
    by_cases left : x < p.width
    · simp [left]
    · rw [if_neg left, Option.map_some, Option.bind_some, List.getElem?_map, List.getElem?_take,
        if_neg left, Option.map_none]
  · have beyond : p.pixels.length ≤ y * p.width + x := by
      rw [p.length_pixels, Nat.mul_comm]
      exact Nat.le_add_right_of_le (Nat.mul_le_mul_right p.width (Nat.le_of_not_lt lower))
    simp [lower, List.getElem?_eq_none beyond]

end Picture

/-! ### Sums over windows -/

namespace CornerSums

/-- The sum up to a corner, if it is in the table. -/
def read? (s : CornerSums) (x y : Nat) : Option Nat := s.rows[y]?.bind (·[x]?)

/-- The sum over a window, if the sums up to its corners are in the table. -/
def window? (s : CornerSums) (x y w h : Nat) : Option Float := do
  let whole ← s.read? (x + w) (y + h)
  let left ← s.read? x (y + h)
  let upper ← s.read? (x + w) y
  let both ← s.read? x y
  return whole.toUInt64.toFloat - left.toUInt64.toFloat - upper.toUInt64.toFloat + both.toUInt64.toFloat

theorem length_prefixSums (sum : Nat) (values : List Nat) :
    (prefixSums sum values).length = values.length + 1 := by
  induction values generalizing sum with
  | nil => rfl
  | cons v values ih => rw [prefixSums, List.length_cons, ih, List.length_cons]

theorem length_stackSums (above : List Nat) (table : List (List Nat)) :
    (stackSums above table).length = table.length + 1 := by
  induction table generalizing above with
  | nil => rfl
  | cons row table ih => rw [stackSums, List.length_cons, ih, List.length_cons]

/-- Each row of the sums is one longer than the rows of the table. -/
theorem length_of_mem_stackSums {width : Nat} {table : List (List Nat)}
    (each : ∀ row ∈ table, row.length = width) {above : List Nat} (first : above.length = width + 1) :
    ∀ row ∈ stackSums above table, row.length = width + 1 := by
  induction table generalizing above with
  | nil => simpa [stackSums] using first
  | cons row table ih =>
    obtain ⟨own, others⟩ := List.forall_mem_cons.mp each
    have next : (List.zipWith (· + ·) above (prefixSums 0 row)).length = width + 1 := by
      rw [List.length_zipWith, length_prefixSums, first, own, Nat.min_self]
    rw [stackSums, List.forall_mem_cons]
    exact ⟨first, ih others next⟩

variable {width : Nat} {table : List (List Nat)}

/-- The sums up to all corners of the table are there. -/
theorem read?_ofTable (each : ∀ row ∈ table, row.length = width) {x y : Nat} (hx : x ≤ width)
    (hy : y ≤ table.length) : (ofTable width table).read? x y = some ((ofTable width table).sumAt x y) := by
  let sums := stackSums (List.replicate (width + 1) 0) table
  have lower : y < sums.length := by
    rw [length_stackSums]
    omega
  have left : x < sums[y].length := by
    rw [length_of_mem_stackSums each (List.length_replicate ..) _ (List.getElem_mem lower)]
    omega
  simp [read?, sumAt, ofTable, sums, lower, left]

theorem window?_ofTable (each : ∀ row ∈ table, row.length = width) {x y w h : Nat}
    (hx : x + w ≤ width) (hy : y + h ≤ table.length) :
    (ofTable width table).window? x y w h = some ((ofTable width table).window x y w h) := by
  have hx' : x ≤ width := by omega
  have hy' : y ≤ table.length := by omega
  unfold window?
  rw [read?_ofTable each hx hy, read?_ofTable each hx' hy, read?_ofTable each hx hy',
    read?_ofTable each hx' hy']
  rfl

end CornerSums

namespace SumTables

/-- The sums over a window, if the sums up to its corners are in the tables. -/
def window? (t : SumTables) (x y w h : Nat) : Option Sums :=
  return ⟨← t.sums.window? x y w h, ← t.squares.window? x y w h⟩

theorem window?_ofTable {width : Nat} {table : List (List Nat)}
    (each : ∀ row ∈ table, row.length = width) {x y w h : Nat} (hx : x + w ≤ width)
    (hy : y + h ≤ table.length) :
    (ofTable width table).window? x y w h = some ((ofTable width table).window x y w h) := by
  have squares := length_of_mem_squared each
  have lower : y + h ≤ (squared table).length := by rwa [length_squared]
  unfold window? ofTable
  rw [CornerSums.window?_ofTable each hx hy, CornerSums.window?_ofTable squares hx lower]
  rfl

end SumTables

/-! ### Scores -/

/-- A fold over two lists, one element after the other, if each can be had from its position. -/
theorem foldlM_range_zip {α β γ : Type} (f : γ → α → β → γ) {step : γ → Nat → Option γ} {as : List α}
    {bs : List β} (enough : as.length ≤ bs.length)
    (each : ∀ c i a b, as[i]? = some a → bs[i]? = some b → step c i = some (f c a b)) (c : γ) :
    (List.range as.length).foldlM step c = some ((as.zip bs).foldl (fun c p => f c p.1 p.2) c) := by
  induction as generalizing bs step c with
  | nil => rfl
  | cons a as ih =>
    cases bs with
    | nil => simp at enough
    | cons b bs =>
      have rest : (List.range as.length).foldlM (fun c i => step c (i + 1)) (f c a b) = _ :=
        ih (Nat.le_of_succ_le_succ enough) (fun c i => each c (i + 1)) (f c a b)
      rw [List.length_cons, List.range_succ_eq_map, List.foldlM_cons, each c 0 a b rfl rfl]
      change List.foldlM step (f c a b) _ = _
      rw [List.foldlM_map]
      exact rest

theorem mapM_eq_some_map {α β : Type} {f : α → Option β} {g : α → β} {as : List α}
    (each : ∀ a ∈ as, f a = some (g a)) : as.mapM f = some (as.map g) := by
  induction as with
  | nil => rfl
  | cons a as ih =>
    obtain ⟨first, rest⟩ := List.forall_mem_cons.mp each
    rw [List.mapM_cons, first, ih rest]
    rfl

namespace Match

variable {large small : Picture}

/-- The products of the values of a row of the small picture with those of the pixels on which it lies,
on top of `sum`, if all these pixels are there. -/
def addRow? (large small : Picture) (x y : Nat) (sum : Float32) (row : Nat) : Option Float32 :=
  (List.range small.width).foldlM (fun sum column => do
    let v ← small.lumaAt? column row
    let v' ← large.lumaAt? (x + column) (y + row)
    return sum + Float32.ofNat v' * Float32.ofNat v) sum

def crossSum? (large small : Picture) (x y : Nat) : Option Float32 :=
  (List.range small.height).foldlM (addRow? large small x y) 0

theorem addProducts_eq_foldl (sum : Float32) (as bs : List Nat) :
    addProducts sum as bs =
      (bs.zip as).foldl (fun sum p => sum + Float32.ofNat p.2 * Float32.ofNat p.1) sum := by
  induction as generalizing sum bs with
  | nil => simp [addProducts]
  | cons a as ih =>
    cases bs with
    | nil => rfl
    | cons b bs => exact ih _ bs

theorem crossSum_eq_foldl (x : Nat) (sum : Float32) (small large : List (List Nat)) :
    crossSum x sum small large =
      (small.zip large).foldl (fun sum p => addProducts sum (p.2.drop x) p.1) sum := by
  induction small generalizing sum large with
  | nil => simp [crossSum]
  | cons row small ih =>
    cases large with
    | nil => rfl
    | cons other large => exact ih _ large

/-- All pixels under a row of the small picture are there. -/
theorem addRow?_eq {x y i : Nat} {row other : List Nat} (hx : x + small.width ≤ large.width)
    (hr : small.luma[i]? = some row) (ho : large.luma[y + i]? = some other) (sum : Float32) :
    addRow? large small x y sum i = some (addProducts sum (other.drop x) row) := by
  have width : row.length = small.width := Picture.length_of_mem_luma (List.mem_of_getElem? hr)
  have width' : other.length = large.width := Picture.length_of_mem_luma (List.mem_of_getElem? ho)
  have enough : row.length ≤ (other.drop x).length := by
    rw [List.length_drop]
    omega
  rw [addRow?, ← width, addProducts_eq_foldl]
  apply foldlM_range_zip (fun sum v v' => sum + Float32.ofNat v' * Float32.ofNat v) enough
  intro sum j v v' hv hv'
  rw [List.getElem?_drop] at hv'
  simp [Picture.lumaAt?_eq, hr, ho, hv, hv']

/-- All pixels under the small picture are there. -/
theorem crossSum?_eq {x y : Nat} (hx : x + small.width ≤ large.width)
    (hy : y + small.height ≤ large.height) :
    crossSum? large small x y = some (crossSum x 0 small.luma (large.luma.drop y)) := by
  have enough : small.luma.length ≤ (large.luma.drop y).length := by
    rw [List.length_drop, small.length_luma, large.length_luma]
    omega
  rw [crossSum?, ← small.length_luma, crossSum_eq_foldl]
  apply foldlM_range_zip (fun sum row other => addProducts sum (other.drop x) row) enough
  intro sum i row other hr ho
  rw [List.getElem?_drop] at ho
  exact addRow?_eq hx hr ho sum

/-- The places of the small picture in the large one with their scores, if all that is read of the
pictures and of the sums over windows is there. -/
def scores? (large small : Picture) : Option (List ((Nat × Nat) × Float32)) :=
  let (w, h) := (small.width, small.height)
  let n := Float.ofNat w * Float.ofNat h
  let tables := SumTables.ofTable large.width large.luma
  (places large.width large.height w h).mapM fun (x, y) => do
    let window ← tables.window? x y w h
    let cross ← crossSum? large small x y
    return ((x, y), (score n (.ofTable small.luma) window cross).toFloat32)

theorem mem_places {width height w h x y : Nat} :
    (x, y) ∈ places width height w h ↔ x + w ≤ width ∧ y + h ≤ height := by
  simp [places]
  omega

/-- All that is read for the scores is there. -/
theorem scores?_eq (large small : Picture) : scores? large small = some (scores large small) := by
  unfold scores? scores
  apply mapM_eq_some_map
  rintro ⟨x, y⟩ hp
  obtain ⟨hx, hy⟩ := mem_places.mp hp
  have lower : y + small.height ≤ large.luma.length := large.length_luma ▸ hy
  simp only [SumTables.window?_ofTable (fun row => Picture.length_of_mem_luma) hx lower,
    crossSum?_eq hx hy]
  rfl

/-! ### The find -/

/-- The best of the places with these scores. -/
def ofScores (small : Picture) : List ((Nat × Nat) × Float32) → Option Match
  | [] => none
  | (p, s) :: rest =>
    let ((x, y), confidence) := firstBest p s rest
    some ⟨x, y, small.width, small.height, confidence.toFloat⟩

/-- The find, if all that is read for it is there. -/
def read? (large small : Picture) (threshold : Float) : Option (Option Match) :=
  if small.width = 0 ∨ small.height = 0 then some none
  else if large.width < small.width ∨ large.height < small.height then some none
  else (scores? large small).map fun scores =>
    (ofScores small scores).filter fun m => threshold ≤ m.confidence

theorem read?_eq (large small : Picture) (threshold : Float) :
    read? large small threshold = some (find? large small threshold) := by
  unfold read? find? best?
  rw [scores?_eq]
  by_cases empty : small.width = 0 ∨ small.height = 0
  · simp [empty]
  · by_cases larger : large.width < small.width ∨ large.height < small.height
    · simp [empty, larger]
    · rw [if_neg empty, if_neg larger, if_neg empty, if_neg larger]
      rfl

/-- Whether the small picture has pixels and fits in the large one. -/
def Fits (large small : Picture) : Prop :=
  (1 ≤ small.width ∧ small.width ≤ large.width) ∧ (1 ≤ small.height ∧ small.height ≤ large.height)

instance (large small : Picture) : Decidable (Fits large small) :=
  inferInstanceAs (Decidable ((_ ∧ _) ∧ _ ∧ _))

theorem best?_of_not_fits (misfit : ¬ Fits large small) : best? large small = none := by
  unfold best? Fits at *
  by_cases empty : small.width = 0 ∨ small.height = 0
  · rw [if_pos empty]
  · rw [if_neg empty, if_pos (by omega)]

theorem best?_of_fits (fits : Fits large small) :
    best? large small = ofScores small (scores large small) := by
  obtain ⟨⟨width, width'⟩, height, height'⟩ := fits
  unfold best?
  rw [if_neg (by omega), if_neg (by omega)]
  rfl

/-- The best place is among those there are. -/
theorem firstBest_mem (place : Nat × Nat) (best : Float32) (rest : List ((Nat × Nat) × Float32)) :
    firstBest place best rest ∈ (place, best) :: rest := by
  induction rest generalizing place best with
  | nil => exact List.mem_singleton.mpr rfl
  | cons next rest ih =>
    obtain ⟨p, s⟩ := next
    rw [firstBest]
    split
    · exact List.mem_cons_of_mem _ (ih p s)
    · rcases List.mem_cons.mp (ih place best) with first | later
      · rw [first]
        exact List.mem_cons_self
      · exact List.mem_cons_of_mem _ (List.mem_cons_of_mem _ later)

/-- There is a best place for each picture that fits in, and it lies in the large picture. -/
theorem exists_best? (fits : Fits large small) :
    ∃ m, best? large small = some m ∧ m.width = small.width ∧ m.height = small.height ∧
      m.x + m.width ≤ large.width ∧ m.y + m.height ≤ large.height := by
  have within : ∀ p ∈ scores large small,
      p.1.1 + small.width ≤ large.width ∧ p.1.2 + small.height ≤ large.height := by
    unfold scores
    rw [List.forall_mem_map]
    rintro ⟨x, y⟩ hp
    exact mem_places.mp hp
  -- A picture that fits in does so in the first corner, so the scores are not empty.
  have first : (0, 0) ∈ places large.width large.height small.width small.height := by
    rw [mem_places]
    obtain ⟨⟨-, width⟩, -, height⟩ := fits
    omega
  rw [best?_of_fits fits]
  cases hs : scores large small with
  | nil =>
    have none : places large.width large.height small.width small.height = [] := by
      simpa [scores] using hs
    rw [none] at first
    cases first
  | cons p rest =>
    rw [hs] at within
    exact ⟨_, rfl, rfl, rfl, within _ (firstBest_mem p.1 p.2 rest)⟩

/-- Whether the match lies in the large picture, and its center in the match. -/
structure Within (m : Match) (large small : Picture) : Prop where
  first : 0 ≤ m.topLeft.x.toInt ∧ 0 ≤ m.topLeft.y.toInt
  size : m.bottomRight.x.toInt = m.topLeft.x.toInt + small.width ∧
    m.bottomRight.y.toInt = m.topLeft.y.toInt + small.height
  last : m.bottomRight.x.toInt ≤ large.width ∧ m.bottomRight.y.toInt ≤ large.height
  column : m.topLeft.x.toInt ≤ m.center.x.toInt ∧ m.center.x.toInt < m.bottomRight.x.toInt
  row : m.topLeft.y.toInt ≤ m.center.y.toInt ∧ m.center.y.toInt < m.bottomRight.y.toInt

end Match

/-- Whether the point is that of a pixel. -/
def Picture.Holds (p : Picture) (c : Coordinate) : Prop :=
  (0 ≤ c.x.toInt ∧ c.x.toInt < p.width) ∧ (0 ≤ c.y.toInt ∧ c.y.toInt < p.height)

namespace Match

variable {large small : Picture}

theorem Within.holds {m : Match} (within : m.Within large small) : large.Holds m.center := by
  obtain ⟨first, size, last, column, row⟩ := within
  unfold Picture.Holds
  omega

/-- The corners and the center of a place have the coordinates that they should have. -/
theorem within_of_le {m : Match} (width : large.width < 2 ^ 31) (height : large.height < 2 ^ 31)
    (fits : Fits large small) (hw : m.width = small.width) (hh : m.height = small.height)
    (hx : m.x + m.width ≤ large.width) (hy : m.y + m.height ≤ large.height) : m.Within large small := by
  have exact {n : Nat} (h : n < 2 ^ 31) : (Int32.ofNat n).toInt = n := Int32.toInt_ofNat_of_lt h
  obtain ⟨⟨column, -⟩, row, -⟩ := fits
  have left := exact (n := m.x) (by omega)
  have upper := exact (n := m.y) (by omega)
  have right := exact (n := m.x + m.width) (by omega)
  have lower := exact (n := m.y + m.height) (by omega)
  have middle := exact (n := m.x + m.width / 2) (by omega)
  have middle' := exact (n := m.y + m.height / 2) (by omega)
  constructor
  all_goals
    simp only [topLeft, bottomRight, center, point, left, upper, right, lower, middle, middle']
    omega

theorem exists_within (width : large.width < 2 ^ 31) (height : large.height < 2 ^ 31)
    (fits : Fits large small) : ∃ m, best? large small = some m ∧ m.Within large small := by
  obtain ⟨m, best, hw, hh, hx, hy⟩ := exists_best? fits
  exact ⟨m, best, within_of_le width height fits hw hh hx hy⟩

theorem find?_of_not_fits (misfit : ¬ Fits large small) (threshold : Float) :
    find? large small threshold = none := by
  rw [find?, best?_of_not_fits misfit]
  rfl

theorem within_of_find? {threshold : Float} {m : Match} (width : large.width < 2 ^ 31)
    (height : large.height < 2 ^ 31) (found : find? large small threshold = some m) :
    m.Within large small := by
  have fits : Fits large small := by
    by_contra misfit
    rw [find?_of_not_fits misfit] at found
    cases found
  obtain ⟨best, hb, within⟩ := exists_within width height fits
  rw [find?, hb, Option.filter_eq_some_iff] at found
  cases found.1
  exact within

/-- On a screen with sides that coordinates can tell, and with whatever threshold, each match lies in the
screen, and its center in it. There is none for a picture without pixels or one that does not fit in; there
is a best place for each other. All that is read of the pictures and of the sums over windows is there.
What is found of a pattern on a screen is a pixel of the screen, however pictures are kept in files. -/
theorem within (large small : Picture) (threshold : Float) (width : large.width < 2 ^ 31)
    (height : large.height < 2 ^ 31) :
    (∀ m, find? large small threshold = some m → m.Within large small) ∧
    (¬ Fits large small → find? large small threshold = none) ∧
    (Fits large small → ∃ m, best? large small = some m ∧ m.Within large small) ∧
    read? large small threshold = some (find? large small threshold) ∧
    ∀ codec pattern c, Element.findOn codec (.ok large) (.picture pattern) = .ok (some c) →
      large.Holds c := by
  refine ⟨fun m => within_of_find? width height, fun misfit => find?_of_not_fits misfit threshold,
    exists_within width height, read?_eq large small threshold, ?_⟩
  intro codec pattern c found
  simp only [Element.findOn] at found
  cases hp : pattern.picture codec with
  | error failure => simp [hp, bind, Except.bind] at found
  | ok small =>
    have found : (find? large small pattern.sureness).map center = some c := by
      simpa [hp, bind, Except.bind, pure, Except.pure] using found
    obtain ⟨m, hm, rfl⟩ := Option.map_eq_some_iff.mp found
    exact (within_of_find? width height hm).holds

/-- A dot in a strip, and the strip in the dot. -/
theorem within_strip :
    let strip : Picture := ⟨3, 1, [⟨10, 10, 10, 255⟩, ⟨200, 200, 200, 255⟩, ⟨10, 10, 10, 255⟩], rfl⟩
    let dot : Picture := ⟨1, 1, [⟨200, 200, 200, 255⟩], rfl⟩
    (∃ m, best? strip dot = some m ∧ m.Within strip dot) ∧
      read? strip dot 0.9 = some (find? strip dot 0.9) ∧ find? dot strip 0.9 = none := by
  intro strip dot
  have fits : Fits strip dot := by decide
  have misfit : ¬ Fits dot strip := by decide
  obtain ⟨-, -, best, read, -⟩ := within strip dot 0.9 (by decide) (by decide)
  obtain ⟨-, none, -⟩ := within dot strip 0.9 (by decide) (by decide)
  exact ⟨best fits, read, none misfit⟩

end Match

end DeskScript
