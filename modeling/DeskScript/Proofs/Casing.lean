import DeskScript.Text.Blank
import DeskScript.Text.Lowercase
import DeskScript.Proofs.Utf8
import Mathlib.Data.List.Basic

/-! Small letters: to take them twice is to take them once, and white space plays no part in it. -/

namespace DeskScript.Text

variable {r s : Nat × Nat} {c x : Char} {n : Nat}
variable {before after blank cs rest : List Char}

/-! ### The tables -/

/-- No number is in both ranges. -/
def apart (r s : Nat × Nat) : Bool := Nat.blt r.2 s.1 || Nat.blt s.2 r.1

theorem not_mem_of_apart (h : apart r s = true) (ge : r.1 ≤ n) (le : n ≤ r.2) :
    ¬ (s.1 ≤ n ∧ n ≤ s.2) := by
  simp only [apart, Bool.or_eq_true, Nat.blt_eq] at h
  omega

theorem inRanges_eq_true_iff {ranges : List (Nat × Nat)} :
    inRanges ranges c = true ↔ ∃ r ∈ ranges, r.1 ≤ c.toNat ∧ c.toNat ≤ r.2 := by
  simp [inRanges]

/-- The characters of `isBlank`. -/
def blankRanges : List (Nat × Nat) := [
  (0x09, 0x0D), (0x20, 0x20), (0x85, 0x85), (0xA0, 0xA0), (0x1680, 0x1680), (0x2000, 0x200A),
  (0x2028, 0x2028), (0x2029, 0x2029), (0x202F, 0x202F), (0x205F, 0x205F), (0x3000, 0x3000)]

theorem isBlank_iff : isBlank c = true ↔ ∃ r ∈ blankRanges, r.1 ≤ c.toNat ∧ c.toNat ≤ r.2 := by
  simp only [isBlank, blankRanges, List.mem_cons, List.not_mem_nil, or_false, exists_eq_or_imp,
    exists_eq_left, Bool.or_eq_true, Bool.and_eq_true, decide_eq_true_eq, beq_iff_eq]
  omega

theorem isBlank_eq_false_of_apart (h : ∀ s ∈ blankRanges, apart r s = true) (ge : r.1 ≤ c.toNat)
    (le : c.toNat ≤ r.2) : isBlank c = false := by
  rw [Bool.eq_false_iff, Ne, isBlank_iff]
  rintro ⟨s, mem, inside⟩
  exact not_mem_of_apart (h s mem) ge le inside

namespace CaseRun

/-- From the first to the last capital. -/
def capitals (r : CaseRun) : Nat × Nat := (r.first, r.last)

/-- From the first to the last small letter. -/
def smalls (r : CaseRun) : Nat × Nat := (r.small, r.small + (r.last - r.first))

/-- `n` is a capital of the run. -/
def Has (r : CaseRun) (n : Nat) : Prop := r.first ≤ n ∧ n ≤ r.last ∧ (n - r.first) % r.stride = 0

/-- No small letter of `r` is a capital of `s`: they are in other ranges, or they alternate. -/
def misses (r s : CaseRun) : Bool :=
  apart r.smalls s.capitals ||
    ((Nat.beq r.stride 2 || Nat.beq r.first r.last) && Nat.beq s.stride 2 &&
      Nat.beq ((r.small + s.first) % 2) 1)

theorem not_has_of_misses {r s : CaseRun} (h : r.misses s = true) (has : r.Has n) :
    ¬ s.Has (r.small + (n - r.first)) := by
  obtain ⟨ge, le, step⟩ := has
  rintro ⟨ge', le', step'⟩
  simp only [misses, Bool.or_eq_true, Bool.and_eq_true, Nat.beq_eq] at h
  -- If the ranges meet, all small letters of `r` have the parity that no capital of `s` has.
  rcases h with other | ⟨⟨two | one, two'⟩, odd⟩
  · exact not_mem_of_apart other (n := r.small + (n - r.first)) (Nat.le_add_right ..)
      (by simp only [smalls]; omega) ⟨ge', le'⟩
  · rw [two] at step
    rw [two'] at step'
    omega
  · rw [two'] at step'
    omega

/-- What each run of the table keeps to. Its small letters are characters and not capitals, none of
them is the dotted capital I, and no letter of it is white space. -/
structure Fits (r : CaseRun) : Prop where
  char : r.smalls.2 < 0x110000
  smalls : ∀ s ∈ (0xD800, 0xDFFF) :: (0x130, 0x130) :: blankRanges, apart r.smalls s = true
  capitals : ∀ s ∈ blankRanges, apart r.capitals s = true
  misses : ∀ s ∈ caseRuns, r.misses s = true

end CaseRun

-- All of the tables in one evaluation, by tests that are cheap to evaluate.
private theorem tables_checked :
    (caseRuns.all fun r => Nat.blt r.smalls.2 0x110000 &&
      (((0xD800, 0xDFFF) :: (0x130, 0x130) :: blankRanges).all (apart r.smalls) &&
        (blankRanges.all (apart r.capitals) && caseRuns.all r.misses))) = true ∧
    (caseRuns.tail.all fun r => Nat.ble 0x80 r.first) = true ∧
    ((caseIgnorableRanges ++ casedRanges).all fun r => blankRanges.all (apart r)) = true := by
  decide +kernel

theorem fits_of_mem {r : CaseRun} (mem : r ∈ caseRuns) : r.Fits := by
  have checked := List.all_eq_true.mp tables_checked.1 r mem
  simp only [Bool.and_eq_true, Nat.blt_eq, List.all_eq_true (p := apart _),
    List.all_eq_true (p := r.misses)] at checked
  obtain ⟨char, smalls, capitals, misses⟩ := checked
  exact ⟨char, smalls, capitals, misses⟩

/-- All capitals but those of the first run are outside ASCII. -/
theorem le_first_of_mem_tail {r : CaseRun} (mem : r ∈ caseRuns.tail) : 0x80 ≤ r.first :=
  Nat.ble_eq.mp (List.all_eq_true.mp tables_checked.2.1 r mem)

theorem cased_apart (mem : r ∈ caseIgnorableRanges ++ casedRanges) (mem' : s ∈ blankRanges) :
    apart r s = true :=
  List.all_eq_true.mp (List.all_eq_true.mp tables_checked.2.2 r mem) s mem'

/-! ### One character -/

/-- A character is its own small letter, unless it is a capital of a run. -/
theorem smallLetter_cases (c : Char) :
    (smallLetter c = c ∧ ∀ r ∈ caseRuns, ¬ r.Has c.toNat) ∨
      ∃ r ∈ caseRuns, r.Has c.toNat ∧ smallLetter c = Char.ofNat (r.small + (c.toNat - r.first)) := by
  unfold smallLetter
  split
  case h_1 r found =>
    have has := List.find?_some found
    simp only [Bool.and_eq_true, decide_eq_true_eq, beq_iff_eq] at has
    exact .inr ⟨r, List.mem_of_find?_eq_some found, ⟨has.1.1, has.1.2, has.2⟩, rfl⟩
  case h_2 none =>
    refine .inl ⟨rfl, fun r mem has => ?_⟩
    have not := List.find?_eq_none.mp none r mem
    simp only [Bool.and_eq_true, decide_eq_true_eq, beq_iff_eq] at not
    exact not ⟨⟨has.1, has.2.1⟩, has.2.2⟩

theorem toNat_ofNat_small {r : CaseRun} (mem : r ∈ caseRuns) (has : r.Has n) :
    (Char.ofNat (r.small + (n - r.first))).toNat = r.small + (n - r.first) := by
  have fits := fits_of_mem mem
  have le : r.small + (n - r.first) ≤ r.smalls.2 := by
    have := has.2.1
    simp only [CaseRun.smalls]
    omega
  have lt := fits.char
  have gap := not_mem_of_apart (fits.smalls _ (.head _)) (Nat.le_add_right r.small (n - r.first)) le
  exact toNat_ofNat (by simp only [Nat.isValidChar]; omega)

theorem isBlank_of_has {r : CaseRun} (mem : r ∈ caseRuns) (has : r.Has c.toNat) :
    isBlank c = false :=
  isBlank_eq_false_of_apart (fits_of_mem mem).capitals has.1 has.2.1

/-- What is said of the small letters of all runs holds of a small letter of another character. -/
theorem smallLetter_apart (other : smallLetter c ≠ c)
    (mem : s ∈ (0xD800, 0xDFFF) :: (0x130, 0x130) :: blankRanges) :
    ¬ (s.1 ≤ (smallLetter c).toNat ∧ (smallLetter c).toNat ≤ s.2) := by
  obtain ⟨same, -⟩ | ⟨r, run, has, eq⟩ := smallLetter_cases c
  · exact absurd same other
  · rw [eq, toNat_ofNat_small run has]
    refine not_mem_of_apart ((fits_of_mem run).smalls s mem) (Nat.le_add_right ..) ?_
    have := has.2.1
    simp only [CaseRun.smalls]
    omega

@[simp] theorem smallLetter_smallLetter (c : Char) : smallLetter (smallLetter c) = smallLetter c := by
  obtain ⟨same, -⟩ | ⟨r, run, has, eq⟩ := smallLetter_cases c
  · rw [same, same]
  obtain ⟨same, -⟩ | ⟨s, run', has', -⟩ := smallLetter_cases (smallLetter c)
  · exact same
  · rw [eq, toNat_ofNat_small run has] at has'
    exact absurd has' (CaseRun.not_has_of_misses ((fits_of_mem run).misses s run') has)

theorem isBlank_smallLetter (c : Char) : isBlank (smallLetter c) = isBlank c := by
  by_cases same : smallLetter c = c
  · rw [same]
  have small : isBlank (smallLetter c) = false := by
    rw [Bool.eq_false_iff, Ne, isBlank_iff]
    rintro ⟨s, mem, inside⟩
    exact smallLetter_apart same (by simp [mem]) inside
  obtain ⟨same', -⟩ | ⟨r, run, has, -⟩ := smallLetter_cases c
  · exact absurd same' same
  · rw [small, isBlank_of_has run has]

/-- A character that is left as it is by `lowercase`, wherever it stands. -/
def IsSmall (c : Char) : Prop := smallLetter c = c ∧ c ≠ 'İ'

instance : DecidablePred IsSmall := fun _ => inferInstanceAs (Decidable (_ ∧ _))

theorem isSmall_smallLetter (notDotted : c ≠ 'İ') : IsSmall (smallLetter c) := by
  refine ⟨smallLetter_smallLetter c, fun dotted => ?_⟩
  by_cases same : smallLetter c = c
  · exact notDotted (same ▸ dotted)
  · exact smallLetter_apart same (s := (0x130, 0x130)) (by simp) (by rw [dotted]; decide)

theorem isSmall_of_isBlank (h : isBlank c = true) : IsSmall c := by
  refine ⟨?_, by rintro rfl; exact absurd h (by decide)⟩
  obtain ⟨same, -⟩ | ⟨r, run, has, -⟩ := smallLetter_cases c
  · exact same
  · rw [isBlank_of_has run has] at h
    exact absurd h (by decide)

theorem le_and_le_iff : 'A' ≤ c ∧ c ≤ 'Z' ↔ 0x41 ≤ c.toNat ∧ c.toNat ≤ 0x5A := by
  simp only [Char.le_def, UInt32.le_iff_toNat_le]
  rfl

/-- In ASCII there is one run of capitals. -/
theorem smallLetter_of_lt (ascii : c.toNat < 0x80) : smallLetter c = asciiSmallLetter c := by
  unfold asciiSmallLetter
  obtain ⟨same, none⟩ | ⟨r, run, has, eq⟩ := smallLetter_cases c
  · rw [same, if_neg]
    rw [le_and_le_iff]
    exact fun ⟨ge, le⟩ => none ⟨0x41, 0x5A, 1, 0x61⟩ (.head _) ⟨ge, le, Nat.mod_one _⟩
  · obtain rfl | later := List.mem_cons.mp (show r ∈ _ :: caseRuns.tail from run)
    · rw [eq, if_pos (le_and_le_iff.mpr ⟨has.1, has.2.1⟩)]
      have ge : 0x41 ≤ c.toNat := has.1
      congr 1
      change 0x61 + (c.toNat - 0x41) = _
      omega
    · have ge := le_first_of_mem_tail later
      have := has.1
      omega

theorem asciiSmallLetter_of_le (high : 0x80 ≤ c.toNat) : asciiSmallLetter c = c := by
  unfold asciiSmallLetter
  rw [if_neg]
  rw [le_and_le_iff]
  omega

@[simp] theorem asciiSmallLetter_smallLetter (c : Char) :
    asciiSmallLetter (smallLetter c) = smallLetter c := by
  by_cases ascii : (smallLetter c).toNat < 0x80
  · rw [← smallLetter_of_lt ascii, smallLetter_smallLetter]
  · exact asciiSmallLetter_of_le (by omega)

/-! ### One step of a text -/

/-- The small letters of `c`, which stands between `before` (last character first) and `after`. -/
def smallForm (before : List Char) (c : Char) (after : List Char) : List Char :=
  if c == 'Σ' then if meetsCased before && !meetsCased after then ['ς'] else ['σ']
  else if c == 'İ' then ['i', '\u0307']
  else [smallLetter c]

@[simp] theorem lowercaseFrom_nil (before : List Char) : lowercaseFrom before [] = [] := rfl

theorem lowercaseFrom_cons (before : List Char) (c : Char) (rest : List Char) :
    lowercaseFrom before (c :: rest) = smallForm before c rest ++ lowercaseFrom (c :: before) rest :=
  rfl

theorem smallForm_cases (before : List Char) (c : Char) (after : List Char) :
    (c = 'Σ' ∧ smallForm before c after = ['ς']) ∨ (c = 'Σ' ∧ smallForm before c after = ['σ']) ∨
    (c = 'İ' ∧ smallForm before c after = ['i', '\u0307']) ∨
    (c ≠ 'İ' ∧ smallForm before c after = [smallLetter c]) := by
  by_cases sigma : c = 'Σ'
  · subst sigma
    by_cases final : (meetsCased before && !meetsCased after) = true <;> simp [smallForm, final]
  · by_cases dotted : c = 'İ' <;> simp [smallForm, sigma, dotted]

private theorem small_letters : IsSmall 'ς' ∧ IsSmall 'σ' ∧ IsSmall 'i' ∧ IsSmall '\u0307' ∧
    smallLetter 'Σ' = 'σ' := by
  decide +kernel

theorem smallForm_ne_nil : smallForm before c after ≠ [] := by
  obtain ⟨-, eq⟩ | ⟨-, eq⟩ | ⟨-, eq⟩ | ⟨-, eq⟩ := smallForm_cases before c after <;> simp [eq]

theorem isSmall_of_mem_smallForm (mem : x ∈ smallForm before c after) : IsSmall x := by
  obtain ⟨final, sigma, i, dot, -⟩ := small_letters
  obtain ⟨-, eq⟩ | ⟨-, eq⟩ | ⟨-, eq⟩ | ⟨notDotted, eq⟩ := smallForm_cases before c after <;>
    rw [eq] at mem
  · rw [List.mem_singleton.mp mem]
    exact final
  · rw [List.mem_singleton.mp mem]
    exact sigma
  · simp only [List.mem_cons, List.not_mem_nil, or_false] at mem
    obtain rfl | rfl := mem
    · exact i
    · exact dot
  · rw [List.mem_singleton.mp mem]
    exact isSmall_smallLetter notDotted

theorem isBlank_of_mem_smallForm (mem : x ∈ smallForm before c after) : isBlank x = isBlank c := by
  obtain ⟨rfl, eq⟩ | ⟨rfl, eq⟩ | ⟨rfl, eq⟩ | ⟨-, eq⟩ := smallForm_cases before c after <;>
    rw [eq] at mem
  · rw [List.mem_singleton.mp mem]
    decide
  · rw [List.mem_singleton.mp mem]
    decide
  · simp only [List.mem_cons, List.not_mem_nil, or_false] at mem
    obtain rfl | rfl := mem <;> decide
  · rw [List.mem_singleton.mp mem, isBlank_smallLetter]

theorem smallForm_of_isSmall (small : IsSmall c) : smallForm before c after = [c] := by
  have notSigma : c ≠ 'Σ' := by
    rintro rfl
    have same := small.1
    rw [small_letters.2.2.2.2] at same
    exact absurd same (by decide)
  simp [smallForm, notSigma, small.1, small.2]

/-! ### Twice -/

theorem isSmall_of_mem_lowercaseFrom (mem : x ∈ lowercaseFrom before cs) : IsSmall x := by
  induction cs generalizing before with
  | nil => exact absurd mem List.not_mem_nil
  | cons c rest ih =>
    rw [lowercaseFrom_cons, List.mem_append] at mem
    exact mem.elim isSmall_of_mem_smallForm ih

theorem lowercaseFrom_of_isSmall (small : ∀ c ∈ cs, IsSmall c) : lowercaseFrom before cs = cs := by
  induction cs generalizing before with
  | nil => rfl
  | cons c rest ih =>
    rw [lowercaseFrom_cons, smallForm_of_isSmall (small c (.head _)),
      ih fun c mem => small c (.tail _ mem)]
    rfl

@[simp] theorem lowercaseChars_lowercaseChars (cs : List Char) :
    lowercaseChars (lowercaseChars cs) = lowercaseChars cs :=
  lowercaseFrom_of_isSmall fun _ => isSmall_of_mem_lowercaseFrom

@[simp] theorem lowercase_lowercase (s : String) : lowercase (lowercase s) = lowercase s := by
  rw [← String.toList_inj]
  simp

/-! ### White space -/

theorem not_inRanges_of_isBlank (h : isBlank c = true) :
    inRanges caseIgnorableRanges c = false ∧ inRanges casedRanges c = false := by
  have out : ∀ r ∈ caseIgnorableRanges ++ casedRanges, ¬ (r.1 ≤ c.toNat ∧ c.toNat ≤ r.2) := by
    rintro r mem ⟨ge, le⟩
    rw [isBlank_eq_false_of_apart (fun s => cased_apart mem) ge le] at h
    exact absurd h (by decide)
  simp only [Bool.eq_false_iff, Ne, inRanges_eq_true_iff]
  exact ⟨fun ⟨r, mem, inside⟩ => out r (List.mem_append_left _ mem) inside,
    fun ⟨r, mem, inside⟩ => out r (List.mem_append_right _ mem) inside⟩

theorem meetsCased_of_allBlank (all : ∀ c ∈ blank, isBlank c = true) : meetsCased blank = false := by
  cases blank with
  | nil => rfl
  | cons c rest =>
    have out := not_inRanges_of_isBlank (all c (.head _))
    simp [meetsCased, out]

theorem meetsCased_append (all : ∀ c ∈ blank, isBlank c = true) (cs : List Char) :
    meetsCased (cs ++ blank) = meetsCased cs := by
  induction cs with
  | nil => exact meetsCased_of_allBlank all
  | cons c rest ih =>
    cases ignored : inRanges caseIgnorableRanges c with
    | true => simpa [meetsCased, ignored] using ih
    | false => simp [meetsCased, ignored]

/-- White space at the ends is not looked at and stays. -/
theorem lowercaseFrom_append (all : ∀ c ∈ blank, isBlank c = true)
    (all' : ∀ c ∈ after, isBlank c = true) (before cs : List Char) :
    lowercaseFrom (before ++ blank) (cs ++ after) = lowercaseFrom before cs ++ after := by
  induction cs generalizing before with
  | nil => exact lowercaseFrom_of_isSmall fun c mem => isSmall_of_isBlank (all' c mem)
  | cons c rest ih =>
    -- Only a capital sigma looks around, and it stops at white space as at the end of the text.
    have step : smallForm (before ++ blank) c (rest ++ after) = smallForm before c rest := by
      rw [smallForm, smallForm, meetsCased_append all, meetsCased_append all']
    rw [List.cons_append, lowercaseFrom_cons, lowercaseFrom_cons, step, ← List.cons_append, ih,
      List.append_assoc]

theorem lowercaseFrom_of_isBlank (all : ∀ c ∈ blank, isBlank c = true) (before rest : List Char) :
    lowercaseFrom before (blank ++ rest) = blank ++ lowercaseFrom (blank.reverse ++ before) rest := by
  induction blank generalizing before with
  | nil => rfl
  | cons c blank ih =>
    rw [List.cons_append, lowercaseFrom_cons, smallForm_of_isSmall (isSmall_of_isBlank (all c (.head _))),
      ih fun c mem => all c (.tail _ mem)]
    simp

theorem lowercaseChars_append (all : ∀ c ∈ before, isBlank c = true)
    (all' : ∀ c ∈ after, isBlank c = true) (cs : List Char) :
    lowercaseChars (before ++ cs ++ after) = before ++ lowercaseChars cs ++ after := by
  have allReverse : ∀ c ∈ before.reverse, isBlank c = true := by simpa using all
  have around := lowercaseFrom_append allReverse all' [] cs
  rw [lowercaseChars, List.append_assoc, lowercaseFrom_of_isBlank all, List.append_nil]
  rw [List.nil_append] at around
  rw [around, List.append_assoc]
  rfl

theorem isBlank_head?_lowercaseFrom (mem : x ∈ (lowercaseFrom before cs).head?) :
    ∃ c ∈ cs.head?, isBlank x = isBlank c := by
  cases cs with
  | nil => exact absurd mem (by simp)
  | cons c rest =>
    refine ⟨c, rfl, ?_⟩
    rw [lowercaseFrom_cons, List.head?_append_of_ne_nil _ smallForm_ne_nil] at mem
    exact isBlank_of_mem_smallForm (List.mem_of_mem_head? mem)

theorem lowercaseFrom_eq_nil_iff : lowercaseFrom before cs = [] ↔ cs = [] := by
  cases cs <;> simp [lowercaseFrom_cons, smallForm_ne_nil]

theorem isBlank_getLast?_lowercaseFrom (mem : x ∈ (lowercaseFrom before cs).getLast?) :
    ∃ c ∈ cs.getLast?, isBlank x = isBlank c := by
  induction cs generalizing before with
  | nil => exact absurd mem (by simp)
  | cons c rest ih =>
    rw [lowercaseFrom_cons] at mem
    cases rest with
    | nil =>
      rw [lowercaseFrom_nil, List.append_nil] at mem
      exact ⟨c, rfl, isBlank_of_mem_smallForm (List.mem_of_getLast? mem)⟩
    | cons d rest =>
      have more : lowercaseFrom (c :: before) (d :: rest) ≠ [] := by simp [lowercaseFrom_eq_nil_iff]
      rw [List.getLast?_append_of_ne_nil _ more] at mem
      obtain ⟨e, last, same⟩ := ih mem
      exact ⟨e, by rwa [List.getLast?_cons_cons], same⟩

theorem solid_lowercaseChars (solid : Solid cs) : Solid (lowercaseChars cs) := by
  refine ⟨fun x mem => ?_, fun x mem => ?_⟩
  · obtain ⟨c, first, same⟩ := isBlank_head?_lowercaseFrom mem
    exact same.trans (solid.1 c first)
  · obtain ⟨c, last, same⟩ := isBlank_getLast?_lowercaseFrom mem
    exact same.trans (solid.2 c last)

theorem trimBlank_lowercaseChars (cs : List Char) :
    trimBlank (lowercaseChars cs) = lowercaseChars (trimBlank cs) := by
  obtain ⟨solid, before, after, all, all', whole⟩ := trimBlank_eq_iff.mp (rfl : trimBlank cs = _)
  refine trimBlank_eq_iff.mpr ⟨solid_lowercaseChars solid, before, after, all, all', ?_⟩
  rw [← lowercaseChars_append all all', ← whole]

theorem trim_lowercase (s : String) : trim (lowercase s) = lowercase (trim s) := by
  rw [← String.toList_inj]
  simp [trimBlank_lowercaseChars]

/-! ### Lengths -/

theorem length_le_length_lowercaseFrom (before cs : List Char) :
    cs.length ≤ (lowercaseFrom before cs).length := by
  induction cs generalizing before with
  | nil => exact Nat.zero_le _
  | cons c rest ih =>
    have one : 0 < (smallForm before c rest).length := List.length_pos_iff.mpr smallForm_ne_nil
    have := ih (c :: before)
    rw [lowercaseFrom_cons, List.length_append, List.length_cons]
    omega

theorem length_le_length_lowercaseChars (cs : List Char) : cs.length ≤ (lowercaseChars cs).length :=
  length_le_length_lowercaseFrom [] cs

theorem lowercaseChars_singleton (c : Char) :
    lowercaseChars [c] = if c = 'İ' then ['i', '\u0307'] else [smallLetter c] := by
  by_cases sigma : c = 'Σ'
  · subst sigma
    rw [if_neg (by decide), small_letters.2.2.2.2]
    rfl
  · by_cases dotted : c = 'İ' <;> simp [lowercaseChars, lowercaseFrom_cons, smallForm, sigma, dotted]

end DeskScript.Text
