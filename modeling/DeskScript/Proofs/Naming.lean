import DeskScript.Key
import DeskScript.Proofs.Casing
import DeskScript.Proofs.Digits

/-! Key names: which texts call which key, and what of a text makes no difference. -/

namespace DeskScript.Key

open Text

variable {name : String} {k : Key} {n : Nat} {c : Char} {cs : List Char}

/-! ### Numbers -/

theorem decimal?_eq_some_iff : decimal? cs = some n ↔
    ∃ zeros, cs = List.replicate zeros '0' ++ Nat.toDigits 10 n := by
  have amount : cs.foldl (fun n c => 10 * n + (c.toNat - '0'.toNat)) 0 = Nat.ofDigitChars 10 cs 0 :=
    (Nat.ofDigitChars_eq_foldl ..).symm
  rw [decimal?, amount]
  constructor
  · intro read
    split at read
    case isTrue => cases read
    case isFalse spelled =>
      simp only [Bool.or_eq_true, Bool.not_eq_true', List.isEmpty_iff, List.all_eq_false, not_or,
        not_exists, not_and, Bool.not_eq_true, Bool.not_eq_false] at spelled
      cases read
      exact exists_zeros spelled.1 spelled.2
  · rintro ⟨zeros, rfl⟩
    have digits : ∀ c ∈ List.replicate zeros '0' ++ Nat.toDigits 10 n, c.isDigit = true := by
      intro c mem
      obtain zero | digit := List.mem_append.mp mem
      · rw [List.eq_of_mem_replicate zero]
        rfl
      · exact Nat.isDigit_of_mem_toDigits (by decide) (by decide) digit
    rw [Nat.ofDigitChars_append, Nat.ofDigitChars_replicate_zero, Nat.mul_zero,
      Nat.ofDigitChars_toDigits (by decide) (by decide)]
    simp [Nat.toDigits_ne_nil, List.all_eq_true.mpr digits]

/-- How a number is read: in the usual decimal, or with more before it than that has. -/
theorem smallNumber?_eq_some_iff (small : n ≤ 255) : smallNumber? cs = some n ↔
    ∃ sign zeros, (sign = [] ∨ sign = ['+']) ∧
      cs = sign ++ (List.replicate zeros '0' ++ Nat.toDigits 10 n) := by
  have unsigned : ∀ zeros, (List.replicate zeros '0' ++ Nat.toDigits 10 n).head? ≠ some '+' := by
    intro zeros plus
    obtain zero | digit := List.mem_append.mp (List.mem_of_mem_head? plus)
    · exact absurd (List.eq_of_mem_replicate zero) (by decide)
    · exact absurd (Nat.isDigit_of_mem_toDigits (by decide) (by decide) digit) (by decide)
  unfold smallNumber?
  rw [Option.filter_eq_some_iff]
  constructor
  · rintro ⟨read, -⟩
    split at read
    · obtain ⟨zeros, rfl⟩ := decimal?_eq_some_iff.mp read
      exact ⟨['+'], zeros, .inr rfl, rfl⟩
    · obtain ⟨zeros, rfl⟩ := decimal?_eq_some_iff.mp read
      exact ⟨[], zeros, .inl rfl, rfl⟩
  · rintro ⟨sign, zeros, rfl | rfl, rfl⟩
    · refine ⟨?_, by simpa using small⟩
      split
      case h_1 rest plus => exact absurd (congrArg List.head? plus) (unsigned zeros)
      case h_2 => exact decimal?_eq_some_iff.mpr ⟨zeros, rfl⟩
    · exact ⟨decimal?_eq_some_iff.mpr ⟨zeros, rfl⟩, by simpa using small⟩

/-! ### Names -/

/-- The keys with names of their own, by name. -/
def names : List (String × Key) := [
  ("enter", .enter), ("return", .enter), ("tab", .tab), ("esc", .escape), ("escape", .escape),
  ("space", .space), ("backspace", .backspace), ("delete", .delete), ("del", .delete),
  ("home", .home), ("end", .finish), ("pageup", .pageUp), ("pagedown", .pageDown),
  ("capslock", .capsLock), ("up", .up), ("down", .down), ("left", .left), ("right", .right),
  ("ctrl", .control), ("control", .control), ("shift", .shift), ("alt", .alt), ("win", .super),
  ("windows", .super), ("meta", .super), ("cmd", .super), ("super", .super)]

theorem named?_eq_some_iff : named? name = some k ↔ (name, k) ∈ names := by
  constructor
  · intro named
    unfold named? at named
    split at named <;> cases named <;> decide
  · intro listed
    have all : ∀ p ∈ names, named? p.1 = some p.2 := by decide
    exact all _ listed

theorem function?_eq_some_iff : function? cs = some k ↔
    ∃ n sign zeros, 1 ≤ n ∧ n ≤ 12 ∧ (sign = [] ∨ sign = ['+']) ∧
      cs = 'f' :: (sign ++ (List.replicate zeros '0' ++ Nat.toDigits 10 n)) ∧ k = .function n := by
  constructor
  · intro read
    unfold function? at read
    split at read
    case h_1 number =>
      obtain ⟨n, numbered, rfl⟩ := Option.map_eq_some_iff.mp read
      obtain ⟨spelled, bounds⟩ := Option.filter_eq_some_iff.mp numbered
      simp only [Bool.and_eq_true, decide_eq_true_eq] at bounds
      obtain ⟨sign, zeros, signed, rfl⟩ := (smallNumber?_eq_some_iff (by omega)).mp spelled
      exact ⟨n, sign, zeros, bounds.1, bounds.2, signed, rfl, rfl⟩
    case h_2 => cases read
  · rintro ⟨n, sign, zeros, ge, le, signed, rfl, rfl⟩
    have small : n ≤ 255 := by omega
    have spelled := (smallNumber?_eq_some_iff small).mpr ⟨sign, zeros, signed, rfl⟩
    simp [function?, spelled, ge, le]

theorem single?_eq_some_iff :
    single? cs = some k ↔ ∃ c, cs = [c] ∧ k = .char (asciiSmallLetter c) := by
  unfold single?
  split
  case h_1 c => simp [eq_comm]
  case h_2 other => exact ⟨nofun, fun ⟨c, one, _⟩ => (other c one).elim⟩

theorem single?_of_length_ne_one (h : cs.length ≠ 1) : single? cs = none := by
  rw [Option.eq_none_iff_forall_ne_some]
  intro k found
  obtain ⟨c, rfl, -⟩ := single?_eq_some_iff.mp found
  exact h rfl

/-! ### One name for one key -/

theorem named?_of_function? {small : String} (numbered : function? small.toList = some k) :
    named? small = none := by
  obtain ⟨n, sign, zeros, -, -, -, f, -⟩ := function?_eq_some_iff.mp numbered
  have others : ∀ p ∈ names, p.1.toList.head? ≠ some 'f' := by decide
  rw [Option.eq_none_iff_forall_ne_some]
  intro k named
  have other := others _ (named?_eq_some_iff.mp named)
  rw [f] at other
  exact other rfl

/-- The small form of one character is no name, of whatever length it is. -/
theorem unnamed_of_single (one : (trim name).toList = [c]) :
    named? (lowercase (trim name)) = none ∧ function? (lowercase (trim name)).toList = none := by
  have short : (lowercase (trim name)).toList = ['i', '\u0307'] ∨
      (lowercase (trim name)).toList.length = 1 := by
    rw [toList_lowercase, one, lowercaseChars_singleton]
    by_cases dotted : c = 'İ' <;> simp [dotted]
  have others : ∀ p ∈ names, p.1.toList ≠ ['i', '\u0307'] ∧ p.1.toList.length ≠ 1 := by decide
  constructor
  · rw [Option.eq_none_iff_forall_ne_some]
    intro k named
    have other := others _ (named?_eq_some_iff.mp named)
    exact short.elim other.1 other.2
  · rw [Option.eq_none_iff_forall_ne_some]
    intro k numbered
    obtain ⟨n, sign, zeros, -, -, -, f, -⟩ := function?_eq_some_iff.mp numbered
    obtain dotted | one := short
    · rw [f] at dotted
      cases dotted
    · have digit : 0 < (Nat.toDigits 10 n).length := Nat.length_toDigits_pos
      rw [f] at one
      simp only [List.length_cons, List.length_append] at one
      omega

theorem ofName?_eq_or (name : String) : ofName? name = (named? (lowercase (trim name))).or
    ((function? (lowercase (trim name)).toList).or (single? (trim name).toList)) := by
  rw [toList_trim]
  simp [ofName?]

/-- No name is one of two kinds at once, so it does not matter which kind is tried first. -/
theorem ofName?_eq_some_iff : ofName? name = some k ↔
    (lowercase (trim name), k) ∈ names ∨ function? (lowercase (trim name)).toList = some k ∨
      ∃ c, (trim name).toList = [c] ∧ k = .char (asciiSmallLetter c) := by
  rw [ofName?_eq_or, Option.or_eq_some_iff, Option.or_eq_some_iff, ← named?_eq_some_iff,
    ← single?_eq_some_iff]
  constructor
  · rintro (named | ⟨-, numbered | ⟨-, single⟩⟩)
    · exact .inl named
    · exact .inr (.inl numbered)
    · exact .inr (.inr single)
  · rintro (named | numbered | single)
    · exact .inl named
    · exact .inr ⟨named?_of_function? numbered, .inl numbered⟩
    · obtain ⟨c, one, -⟩ := single?_eq_some_iff.mp single
      obtain ⟨unnamed, unnumbered⟩ := unnamed_of_single one
      exact .inr ⟨unnamed, .inr ⟨unnumbered, single⟩⟩

/-- The key called `name`, as it is said: by a name of its own, as a function key with the usual
decimal of its number, or by the one character that it types. -/
inductive Calls (name : String) : Key → Prop
  | named {k : Key} : (lowercase (trim name), k) ∈ names → Calls name k
  | function {n : Nat} : 1 ≤ n → n ≤ 12 → lowercase (trim name) = "f" ++ toString n →
      Calls name (.function n)
  | single {c : Char} : (trim name).toList = [c] → Calls name (.char (asciiSmallLetter c))

/-- The function key called `name` with more before the usual decimal of its number: a plus sign,
zeros, or both. -/
inductive Pads (name : String) : Key → Prop
  | intro {n zeros : Nat} {sign : String} : 1 ≤ n → n ≤ 12 → (sign = "" ∧ 0 < zeros ∨ sign = "+") →
      lowercase (trim name) = "f" ++ sign ++ String.ofList (List.replicate zeros '0') ++ toString n →
      Pads name (.function n)

theorem toList_numbered (sign : String) (zeros n : Nat) :
    ("f" ++ sign ++ String.ofList (List.replicate zeros '0') ++ toString n).toList =
      'f' :: (sign.toList ++ (List.replicate zeros '0' ++ Nat.toDigits 10 n)) := by
  simp

theorem function?_of_pads (pads : Pads name k) : function? (lowercase (trim name)).toList = some k := by
  obtain @⟨n, zeros, sign, ge, le, signed, spelled⟩ := pads
  refine function?_eq_some_iff.mpr ⟨n, sign.toList, zeros, ge, le, ?_, ?_, rfl⟩
  · obtain ⟨rfl, -⟩ | rfl := signed
    · exact .inl rfl
    · exact .inr rfl
  · rw [spelled, toList_numbered]

theorem function?_of_usual (ge : 1 ≤ n) (le : n ≤ 12)
    (spelled : lowercase (trim name) = "f" ++ toString n) :
    function? (lowercase (trim name)).toList = some (.function n) := by
  refine function?_eq_some_iff.mpr ⟨n, [], 0, ge, le, .inl rfl, ?_, rfl⟩
  rw [spelled]
  exact toList_numbered "" 0 n

theorem calls_or_pads (numbered : function? (lowercase (trim name)).toList = some k) :
    Calls name k ∨ Pads name k := by
  obtain ⟨n, sign, zeros, ge, le, signed, chars, rfl⟩ := function?_eq_some_iff.mp numbered
  have spelled : lowercase (trim name) =
      "f" ++ String.ofList sign ++ String.ofList (List.replicate zeros '0') ++ toString n := by
    rw [← String.toList_inj, chars, toList_numbered, String.toList_ofList]
  obtain rfl | rfl := signed
  · cases zeros with
    | zero => exact .inl (.function ge le (by simpa using spelled))
    | succ zeros => exact .inr (.intro ge le (.inl ⟨rfl, zeros.succ_pos⟩) spelled)
  · exact .inr (.intro ge le (.inr rfl) spelled)

/-- The usual decimal begins with neither a sign nor a zero. -/
theorem Pads.not_calls {k' : Key} (pads : Pads name k) : ¬ Calls name k' := by
  have numbered := function?_of_pads pads
  rintro (listed | @⟨m, ge', le', usual⟩ | one)
  · rw [← named?_eq_some_iff, named?_of_function? numbered] at listed
    cases listed
  · obtain @⟨n, zeros, sign, -, -, signed, spelled⟩ := pads
    have same : Nat.toDigits 10 m =
        sign.toList ++ (List.replicate zeros '0' ++ Nat.toDigits 10 n) := by
      have chars := congrArg String.toList (usual.symm.trans spelled)
      rw [toList_numbered] at chars
      simpa using chars
    have usuals : ∀ m ≤ 12, 1 ≤ m → (Nat.toDigits 10 m).head? ≠ some '0' ∧
        (Nat.toDigits 10 m).head? ≠ some '+' := by decide
    have first := usuals m le' ge'
    rw [same] at first
    obtain ⟨rfl, pos⟩ | rfl := signed
    · cases zeros with
      | zero => omega
      | succ zeros => exact first.1 rfl
    · exact first.2 rfl
  · rw [(unnamed_of_single one).2] at numbered
    cases numbered

/-- The names of a key are those that call it and, for a function key, those with more than the usual
decimal of its number; all other texts name nothing. -/
theorem recognises (name : String) (k k' : Key) :
    (ofName? name = some k ↔ Calls name k ∨ Pads name k) ∧ ¬ (Pads name k ∧ Calls name k') := by
  refine ⟨?_, fun ⟨pads, calls⟩ => pads.not_calls calls⟩
  rw [ofName?_eq_some_iff]
  constructor
  · rintro (listed | numbered | ⟨c, one, rfl⟩)
    · exact .inl (.named listed)
    · exact calls_or_pads numbered
    · exact .inl (.single one)
  · rintro ((listed | ⟨ge, le, spelled⟩ | one) | pads)
    · exact .inl listed
    · exact .inr (.inl (function?_of_usual ge le spelled))
    · exact .inr (.inr ⟨_, one, rfl⟩)
    · exact .inr (.inl (function?_of_pads pads))

/-- `f+5` is not among the names `f1` to `f12`. -/
theorem recognises_plus : ofName? "f+5" = some (.function 5) ∧ ∀ k, ¬ Calls "f+5" k := by
  have pads : Pads "f+5" (.function 5) :=
    @Pads.intro _ 5 0 "+" (by decide) (by decide) (.inr rfl) (by decide +kernel)
  exact ⟨by decide +kernel, fun _ => pads.not_calls⟩

/-! ### Case and white space -/

theorem ofName?_append {before after : String} (blank : allBlank before = true)
    (blank' : allBlank after = true) (name : String) :
    ofName? (before ++ name ++ after) = ofName? name := by
  rw [ofName?_eq_or, ofName?_eq_or, trim_append_blank blank blank']

/-- Only for a character by itself does anything but the small letters of a name matter. -/
theorem ofName?_of_not_single (several : (trim name).toList.length ≠ 1) :
    ofName? (lowercase name) = ofName? name := by
  have more : (lowercaseChars (trim name).toList).length ≠ 1 := by
    have := length_le_length_lowercaseChars (trim name).toList
    obtain none | some : (trim name).toList.length = 0 ∨ 1 < (trim name).toList.length := by omega
    · rw [List.length_eq_zero_iff.mp none]
      decide
    · omega
  rw [ofName?_eq_or, ofName?_eq_or, trim_lowercase, lowercase_lowercase,
    single?_of_length_ne_one several, toList_lowercase, single?_of_length_ne_one more]

theorem ofName?_of_single (one : (trim name).toList = [c]) :
    ofName? name = some (.char (asciiSmallLetter c)) :=
  ofName?_eq_some_iff.mpr (.inr (.inr ⟨c, one, rfl⟩))

theorem ofName?_lowercase_of_single (one : (trim name).toList = [c]) :
    ofName? (lowercase name) = ofName? name ↔ c.toNat < 0x80 ∨ lowercaseChars [c] = [c] := by
  have small : (trim (lowercase name)).toList = lowercaseChars [c] := by
    rw [trim_lowercase, toList_lowercase, one]
  rw [ofName?_of_single one]
  rw [lowercaseChars_singleton] at small ⊢
  by_cases dotted : c = 'İ'
  · subst dotted
    obtain ⟨unnamed, unnumbered⟩ := unnamed_of_single one
    have none : ofName? (lowercase name) = none := by
      rw [ofName?_eq_or, small, trim_lowercase, lowercase_lowercase, unnamed, unnumbered]
      rfl
    rw [none]
    exact iff_of_false nofun (by decide)
  · rw [if_neg dotted] at small ⊢
    rw [ofName?_of_single small, asciiSmallLetter_smallLetter]
    by_cases ascii : c.toNat < 0x80
    · simp [ascii, smallLetter_of_lt ascii]
    · simp [ascii, asciiSmallLetter_of_le (by omega : 0x80 ≤ c.toNat)]

/-- White space around a name makes no difference. Its case makes one only for a single character
outside of ASCII, and for such a one whenever it has a small form other than itself. -/
theorem overlooks (before after name : String) (blank : allBlank before = true)
    (blank' : allBlank after = true) :
    ofName? (before ++ name ++ after) = ofName? name ∧
    (ofName? (lowercase name) = ofName? name ↔
      ∀ c, (trim name).toList = [c] → c.toNat < 0x80 ∨ lowercaseChars [c] = [c]) := by
  refine ⟨ofName?_append blank blank' name, ?_⟩
  by_cases single : (trim name).toList.length = 1
  · obtain ⟨c, one⟩ := List.length_eq_one_iff.mp single
    simp only [ofName?_lowercase_of_single one, one, List.cons.injEq, and_true, forall_eq']
  · refine iff_of_true (ofName?_of_not_single single) fun c one => ?_
    rw [one] at single
    exact absurd rfl single

theorem overlooks_enter : allBlank " " = true ∧ allBlank "\t" = true ∧
    ofName? " EntER\t" = ofName? "EntER" ∧ ofName? (lowercase "EntER") = ofName? "EntER" := by
  have law := overlooks " " "\t" "EntER" (by decide) (by decide)
  refine ⟨by decide, by decide, law.1, law.2.mpr fun c one => ?_⟩
  have several : (trim "EntER").toList = ['E', 'n', 't', 'E', 'R'] := by decide
  rw [several] at one
  cases one

/-- The key of a letter and that of its small letter are not the same outside of ASCII. -/
theorem overlooks_no_accent : ofName? "É" = some (.char 'É') ∧
    ofName? (lowercase "É") = some (.char 'é') := by
  decide +kernel

end DeskScript.Key
