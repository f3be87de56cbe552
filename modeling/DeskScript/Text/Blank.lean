/-! White space, and texts without it at their ends. -/

namespace DeskScript.Text

/-- The characters with the Unicode property White_Space. -/
def isBlank (c : Char) : Bool :=
  (0x09 ≤ c.toNat && c.toNat ≤ 0x0D) || c.toNat == 0x20 || c.toNat == 0x85 || c.toNat == 0xA0 ||
  c.toNat == 0x1680 || (0x2000 ≤ c.toNat && c.toNat ≤ 0x200A) || c.toNat == 0x2028 ||
  c.toNat == 0x2029 || c.toNat == 0x202F || c.toNat == 0x205F || c.toNat == 0x3000

def trimBlank (cs : List Char) : List Char :=
  ((cs.dropWhile isBlank).reverse.dropWhile isBlank).reverse

def trim (s : String) : String := String.ofList (trimBlank s.toList)

/-- A text of white space only, or of nothing, names nothing. -/
def allBlank (s : String) : Bool := s.toList.all isBlank

@[simp] theorem toList_trim (s : String) : (trim s).toList = trimBlank s.toList := by
  simp [trim]

private theorem dropBlank_eq_nil {cs : List Char} :
    cs.dropWhile isBlank = [] ↔ ∀ c ∈ cs, isBlank c = true := by
  induction cs with
  | nil => simp
  | cons c cs ih => by_cases h : isBlank c = true <;> simp [h, ih]

theorem trimBlank_eq_nil_iff {cs : List Char} : trimBlank cs = [] ↔ ∀ c ∈ cs, isBlank c = true := by
  rw [trimBlank, List.reverse_eq_nil_iff, dropBlank_eq_nil]
  simp only [List.mem_reverse]
  rw [← dropBlank_eq_nil]
  induction cs with
  | nil => simp
  | cons c cs ih =>
    by_cases h : isBlank c = true
    · simpa [List.dropWhile_cons, h] using ih
    · simp [h]

/-- White space at the ends makes no difference. -/
theorem trimBlank_append {before after : List Char} (blank : ∀ c ∈ before, isBlank c = true)
    (blank' : ∀ c ∈ after, isBlank c = true) (cs : List Char) :
    trimBlank (before ++ cs ++ after) = trimBlank cs := by
  rw [trimBlank, trimBlank, List.append_assoc, List.dropWhile_append_of_pos blank,
    List.dropWhile_append]
  split
  case isTrue none =>
    rw [dropBlank_eq_nil.mpr blank', List.isEmpty_iff.mp none]
  case isFalse some =>
    rw [List.reverse_append, List.dropWhile_append_of_pos (by simpa using blank')]

theorem trim_append_blank {before after : String} (blank : allBlank before = true)
    (blank' : allBlank after = true) (s : String) : trim (before ++ s ++ after) = trim s := by
  rw [← String.toList_inj, toList_trim, toList_trim, String.toList_append, String.toList_append]
  exact trimBlank_append (List.all_eq_true.mp blank) (List.all_eq_true.mp blank') _

/-- No white space at either end. -/
def Solid (cs : List Char) : Prop :=
  (∀ c ∈ cs.head?, isBlank c = false) ∧ (∀ c ∈ cs.getLast?, isBlank c = false)

private theorem dropBlank_of_head? {cs : List Char} (solid : ∀ c ∈ cs.head?, isBlank c = false) :
    cs.dropWhile isBlank = cs := by
  cases cs with
  | nil => rfl
  | cons c cs => rw [List.dropWhile_cons, solid c rfl]; rfl

private theorem head?_dropBlank (cs : List Char) :
    ∀ c ∈ (cs.dropWhile isBlank).head?, isBlank c = false := by
  intro c first
  simpa [Option.mem_def.mp first] using List.head?_dropWhile_not isBlank cs

theorem solid_trimBlank (cs : List Char) : Solid (trimBlank cs) := by
  constructor
  · intro c first
    have prefixed : trimBlank cs <+: cs.dropWhile isBlank := by
      rw [← List.reverse_suffix, trimBlank, List.reverse_reverse]
      exact List.dropWhile_suffix isBlank
    obtain ⟨rest, whole⟩ := prefixed
    refine head?_dropBlank cs c ?_
    rw [← whole, List.head?_append, Option.mem_def.mp first]
    rfl
  · intro c last
    rw [trimBlank, List.getLast?_reverse] at last
    exact head?_dropBlank _ c last

/-- Trimming takes off the white space at the ends, all of it and nothing else. -/
theorem trimBlank_eq_iff {cs core : List Char} : trimBlank cs = core ↔ Solid core ∧
    ∃ before after, (∀ c ∈ before, isBlank c = true) ∧ (∀ c ∈ after, isBlank c = true) ∧
      cs = before ++ core ++ after := by
  constructor
  · rintro rfl
    refine ⟨solid_trimBlank cs, cs.takeWhile isBlank,
      ((cs.dropWhile isBlank).reverse.takeWhile isBlank).reverse, fun c hc => ?_, fun c hc => ?_, ?_⟩
    · exact List.all_eq_true.mp List.all_takeWhile c hc
    · exact List.all_eq_true.mp List.all_takeWhile c (List.mem_reverse.mp hc)
    · rw [trimBlank, List.append_assoc, ← List.reverse_append, List.takeWhile_append_dropWhile,
        List.reverse_reverse, List.takeWhile_append_dropWhile]
  · rintro ⟨⟨first, last⟩, before, after, blank, blank', rfl⟩
    rw [trimBlank_append blank blank', trimBlank, dropBlank_of_head? first,
      dropBlank_of_head? (by simpa using last), List.reverse_reverse]

/-- Nothing is left of a text by trimming exactly when it is all white space. -/
theorem allBlank_iff_trim_eq_empty {s : String} : allBlank s = true ↔ trim s = "" := by
  rw [← String.toList_inj, toList_trim, String.toList_empty, trimBlank_eq_nil_iff, allBlank,
    List.all_eq_true]

end DeskScript.Text
