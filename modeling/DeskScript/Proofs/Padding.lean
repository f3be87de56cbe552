import DeskScript.Picture.Base64
import Mathlib.Data.List.Nodup
import Mathlib.Data.Nat.Digits.Defs

/-! Texts in base 64: those that are read are those that are written, and they are read as the bytes
for which they were written. The rule of these texts stands at the end. -/

namespace DeskScript.Base64

/-! ### Symbols -/

/-- So many bytes in a row, from `first` on. -/
def run (first count : Nat) : List UInt8 := (List.range count).map fun n => .ofNat (first + n)

theorem toList_symbols : symbols.toList = run 65 26 ++ run 97 26 ++ run 48 10 ++ [43, 47] := by
  rfl

theorem size_symbols : symbols.size = 64 := by
  rw [← Array.length_toList, toList_symbols]
  simp [run]

theorem nodup_symbols : symbols.toList.Nodup := by
  rw [toList_symbols]
  decide

theorem value?_eq (b : UInt8) : value? b = symbols.findIdx? (· == b) := by
  have small : b.toNat < 256 := b.toNat_lt
  have same (v : UInt8) : (v.toNat == b.toNat) = (v == b) := by
    rw [Bool.eq_iff_iff, beq_iff_eq, beq_iff_eq, UInt8.toNat_inj]
  simp [value?, values, Array.getD, small, same]

/-- The symbols stand for the numbers below 64. -/
theorem value?_eq_some {b : UInt8} {n : Nat} : value? b = some n ↔ n < 64 ∧ b = symbol n := by
  have own {i : Nat} (h : i < symbols.size) : symbols[i] = symbol i := by
    simp [symbol, Array.getD, h]
  rw [value?_eq, Array.findIdx?_eq_some_iff_getElem]
  constructor
  · rintro ⟨inside, same, -⟩
    rw [beq_iff_eq, own] at same
    exact ⟨size_symbols ▸ inside, same.symm⟩
  · rintro ⟨small, rfl⟩
    have inside : n < symbols.size := size_symbols ▸ small
    refine ⟨inside, by simp [own], fun j hj same => ?_⟩
    have last : n < symbols.toList.length := by simpa using inside
    have first : j < symbols.toList.length := by omega
    have twice : symbols.toList[j] = symbols.toList[n] := by simpa [own] using same
    exact Nat.ne_of_lt hj (nodup_symbols.getElem_inj_iff.mp twice)

theorem isSymbol_iff {b : UInt8} : isSymbol b = true ↔ ∃ n < 64, b = symbol n := by
  rw [isSymbol, Option.isSome_iff_exists]
  simp only [value?_eq_some]

theorem value?_symbol {n : Nat} (h : n < 64) : value? (symbol n) = some n :=
  value?_eq_some.mpr ⟨h, rfl⟩

theorem isSymbol_symbol {n : Nat} (h : n < 64) : isSymbol (symbol n) = true :=
  isSymbol_iff.mpr ⟨n, h, rfl⟩

@[simp] theorem value?_pad : value? pad = none := by
  have stranger : pad ∉ symbols.toList := by
    rw [toList_symbols]
    decide
  rw [value?_eq, Array.findIdx?_eq_none_iff]
  intro v hv
  rw [beq_eq_false_iff_ne]
  rintro rfl
  exact stranger (Array.mem_toList_iff.mpr hv)

@[simp] theorem isSymbol_pad : isSymbol pad = false := by
  rw [isSymbol, value?_pad]
  rfl

/-! ### Writing and reading, group by group -/

theorem encodeOnto_eq : ∀ (text : Array UInt8) (bytes : List UInt8),
    (encodeOnto text bytes).toList = text.toList ++ encode bytes
  | text, [] => by simp [encode, encodeOnto]
  | text, [a] => by simp [encode, encodeOnto]
  | text, [a, b] => by simp [encode, encodeOnto]
  | text, a :: b :: c :: rest => by
    rw [encode, encodeOnto, encodeOnto, encodeOnto_eq _ rest, encodeOnto_eq _ rest]
    simp

/-- Three bytes become four symbols. -/
theorem encode_cons (a b c : UInt8) (rest : List UInt8) : encode (a :: b :: c :: rest) =
    [symbol (a.toNat / 4), symbol (a.toNat % 4 * 16 + b.toNat / 16),
      symbol (b.toNat % 16 * 4 + c.toNat / 64), symbol (c.toNat % 64)] ++ encode rest := by
  rw [encode, encodeOnto, encodeOnto_eq]
  rfl

theorem encode_one (a : UInt8) :
    encode [a] = [symbol (a.toNat / 4), symbol (a.toNat % 4 * 16), pad, pad] := rfl

theorem encode_two (a b : UInt8) : encode [a, b] = [symbol (a.toNat / 4),
    symbol (a.toNat % 4 * 16 + b.toNat / 16), symbol (b.toNat % 16 * 4), pad] := rfl

theorem encode_three (a b c : UInt8) : encode [a, b, c] = [symbol (a.toNat / 4),
    symbol (a.toNat % 4 * 16 + b.toNat / 16), symbol (b.toNat % 16 * 4 + c.toNat / 64),
    symbol (c.toNat % 64)] := rfl

theorem octetsOnto_eq : ∀ (bytes : Array UInt8) (values : List Nat),
    (octetsOnto bytes values).toList = bytes.toList ++ octets values
  | bytes, [] => by simp [octets, octetsOnto]
  | bytes, [a] => by simp [octets, octetsOnto]
  | bytes, [a, b] => by simp [octets, octetsOnto]
  | bytes, [a, b, c] => by simp [octets, octetsOnto]
  | bytes, a :: b :: c :: d :: rest => by
    rw [octets, octetsOnto, octetsOnto, octetsOnto_eq _ rest, octetsOnto_eq _ rest]
    simp

/-- Four values become three bytes. -/
theorem octets_cons (a b c d : Nat) (rest : List Nat) : octets (a :: b :: c :: d :: rest) =
    [UInt8.ofNat (a * 4 + b / 16), UInt8.ofNat (b % 16 * 16 + c / 4), UInt8.ofNat (c % 4 * 64 + d)] ++
      octets rest := by
  rw [octets, octetsOnto, octetsOnto_eq]
  rfl

theorem octets_two (a b : Nat) : octets [a, b] = [UInt8.ofNat (a * 4 + b / 16)] := rfl

theorem octets_three (a b c : Nat) :
    octets [a, b, c] = [UInt8.ofNat (a * 4 + b / 16), UInt8.ofNat (b % 16 * 16 + c / 4)] := rfl

/-! ### Faults -/

theorem firstStray_eq_none {offset : Nat} {text : List UInt8} :
    firstStray offset text = none ↔ ∀ b ∈ text, isSymbol b = true := by
  induction text generalizing offset with
  | nil => simp [firstStray]
  | cons b text ih => cases h : isSymbol b <;> simp [firstStray, h, ih]

theorem groupFault_of_padding {offset done first : Nat} {group : List UInt8} (h : 2 ≤ done) :
    groupFault offset done (some first) group = none ↔ ∀ b ∈ group, b = pad := by
  induction group generalizing done with
  | nil => simp [groupFault]
  | cons b group ih =>
    have few : ¬ done < 2 := by omega
    by_cases hb : b = pad
    · have next := ih (show 2 ≤ done + 1 by omega)
      simp [groupFault, hb, few, next]
    · simp [groupFault, hb]

/-- The last group is sound if its symbols are followed by nothing but padding, which does not come
early. -/
theorem groupFault_eq_none {offset done : Nat} {group : List UInt8} :
    groupFault offset done none group = none ↔ ∃ symbols pads, group = symbols ++ pads ∧
      (∀ b ∈ symbols, isSymbol b = true) ∧ (∀ b ∈ pads, b = pad) ∧
      (pads ≠ [] → 2 ≤ done + symbols.length) := by
  induction group generalizing done with
  | nil => simp [groupFault]
  | cons b group ih =>
    have padded (hb : b = pad) : ¬ isSymbol b = true := by simp [hb]
    rw [groupFault]
    constructor
    · intro sound
      by_cases hb : b = pad
      · rw [if_pos hb] at sound
        split at sound
        · cases sound
        · rename_i late
          have pads := (groupFault_of_padding (by omega)).mp sound
          refine ⟨[], b :: group, rfl, by simp, List.forall_mem_cons.mpr ⟨hb, pads⟩, fun _ => ?_⟩
          rw [List.length_nil]
          omega
      · rw [if_neg hb] at sound
        split at sound
        · rename_i own
          obtain ⟨symbols, pads, rfl, others, filled, late⟩ := ih.mp sound
          refine ⟨b :: symbols, pads, rfl, List.forall_mem_cons.mpr ⟨own, others⟩, filled, ?_⟩
          intro some
          have := late some
          rw [List.length_cons]
          omega
        · cases sound
    · rintro ⟨symbols, pads, same, sound, filled, late⟩
      cases symbols with
      | nil =>
        obtain rfl : b :: group = pads := same
        obtain ⟨hb, others⟩ := List.forall_mem_cons.mp filled
        have late : 2 ≤ done := by simpa using late
        rw [if_pos hb, if_neg (by omega)]
        exact (groupFault_of_padding (by omega)).mpr others
      | cons b' symbols =>
        obtain ⟨rfl, rfl⟩ := List.cons.inj same
        obtain ⟨own, others⟩ := List.forall_mem_cons.mp sound
        rw [if_neg fun hb => padded hb own, if_pos own]
        refine ih.mpr ⟨symbols, pads, rfl, others, filled, fun some => ?_⟩
        have := late some
        rw [List.length_cons] at this
        omega

theorem spareBits_append {whole rest : List Nat} (h : whole.length % 4 = 0) (some : rest ≠ []) :
    spareBits (whole ++ rest) = spareBits rest := by
  have length : (whole ++ rest).length % 4 = rest.length % 4 := by
    rw [List.length_append]
    omega
  have last : (whole ++ rest).getLastD 0 = rest.getLastD 0 := by
    simp [List.getLastD_eq_getLast?, List.getLast?_append, List.getLast?_eq_getLast_of_ne_nil some]
  rw [spareBits, spareBits, length, last]

theorem length_filterMap_value? {text : List UInt8} (h : ∀ b ∈ text, isSymbol b = true) :
    (text.filterMap value?).length = text.length := by
  induction text with
  | nil => rfl
  | cons b text ih =>
    obtain ⟨own, others⟩ := List.forall_mem_cons.mp h
    obtain ⟨n, hn⟩ := Option.isSome_iff_exists.mp own
    rw [List.filterMap_cons_some hn, List.length_cons, ih others, List.length_cons]

/-- Whether the group is filled up with padding as it should be, and nothing is lost of its last symbol. -/
def Closes (group : List UInt8) : Prop :=
  ∃ symbols pads, group = symbols ++ pads ∧ (∀ b ∈ symbols, isSymbol b = true) ∧
    (∀ b ∈ pads, b = pad) ∧ 2 ≤ symbols.length ∧ spareBits (symbols.filterMap value?) = 0

/-- A text of whole groups is sound if they are of symbols and the last one is filled up. -/
theorem fault?_append {body last : List UInt8} (whole : body.length % 4 = 0) (four : last.length = 4) :
    fault? (body ++ last) = none ↔ (∀ b ∈ body, isSymbol b = true) ∧ Closes last := by
  have length : (body ++ last).length = body.length + 4 := by rw [List.length_append, four]
  have offset : lastGroup (body ++ last).length = body.length := by
    have multiple : (body.length + 4) % 4 = 0 := by omega
    rw [lastGroup, length, if_pos multiple]
    omega
  have whole' : ¬ (body.length + 4) % 4 = 1 := by omega
  have extent {symbols pads : List UInt8} (sound : ∀ b ∈ symbols, isSymbol b = true)
      (filled : ∀ b ∈ pads, b = pad) : (symbols ++ pads).takeWhile isSymbol = symbols := by
    rw [List.takeWhile_append_of_pos sound]
    cases pads with
    | nil => simp
    | cons b pads => simp [filled b List.mem_cons_self]
  have spare (sound : ∀ b ∈ body, isSymbol b = true) {symbols pads : List UInt8}
      (some : 2 ≤ symbols.length) (sound' : ∀ b ∈ symbols, isSymbol b = true) :
      spareBits (((body ++ (symbols ++ pads)).take (body.length + symbols.length)).filterMap value?) =
        spareBits (symbols.filterMap value?) := by
    have front : (body ++ (symbols ++ pads)).take (body.length + symbols.length) = body ++ symbols := by
      rw [List.take_length_add_append, List.take_left]
    rw [front, List.filterMap_append, spareBits_append]
    · rw [length_filterMap_value? sound, whole]
    · rw [← List.length_pos_iff, length_filterMap_value? sound']
      omega
  unfold fault?
  simp only [offset, List.take_left, List.drop_left]
  cases hl : (body ++ last).getLast? with
  | none => simp [List.getLast?_eq_none_iff.mp hl] at length
  | some b =>
    simp only [whole', four, false_and, if_false, List.length_append, Nat.zero_lt_succ, true_and,
      Nat.mod_self, ne_eq, not_true_eq_false, Option.orElse_eq_orElse, Option.orElse_eq_or,
      Option.none_or, Option.or_eq_none_iff, Option.map_eq_none_iff, firstStray_eq_none,
      groupFault_eq_none, Nat.zero_add, ite_eq_right_iff, reduceCtorEq, imp_false, Nat.not_lt,
      ite_eq_left_iff, Decidable.not_not]
    refine and_congr_right fun sound => ?_
    constructor
    · rintro ⟨⟨symbols, pads, rfl, sound', filled, -⟩, some, zero⟩
      rw [extent sound' filled] at some zero
      rw [spare sound some sound'] at zero
      exact ⟨symbols, pads, rfl, sound', filled, some, zero⟩
    · rintro ⟨symbols, pads, rfl, sound', filled, some, zero⟩
      rw [extent sound' filled, spare sound some sound']
      exact ⟨⟨symbols, pads, rfl, sound', filled, fun _ => some⟩, some, zero⟩

theorem length_of_sound {text : List UInt8} (sound : fault? text = none) : text.length % 4 = 0 := by
  unfold fault? at sound
  simp only [Option.orElse_eq_orElse, Option.orElse_eq_or, Option.or_eq_none_iff] at sound
  obtain ⟨-, -, -, -, unpadded, -⟩ := sound
  have whole : (text.drop (lastGroup text.length)).length % 4 = 0 := by simpa using unpadded
  rw [List.length_drop, lastGroup] at whole
  by_contra part
  rw [if_neg part] at whole
  omega

/-! ### Bytes and their texts -/

/-- Whether this is the text of some bytes. -/
def IsWritten (text : List UInt8) : Prop := ∃ bytes, text = encode bytes

theorem IsWritten.cons {a b c d : Nat} (ha : a < 64) (hb : b < 64) (hc : c < 64) (hd : d < 64)
    {rest : List UInt8} (h : IsWritten rest) :
    IsWritten (symbol a :: symbol b :: symbol c :: symbol d :: rest) := by
  obtain ⟨bytes, rfl⟩ := h
  refine ⟨.ofNat (a * 4 + b / 16) :: .ofNat (b % 16 * 16 + c / 4) :: .ofNat (c % 4 * 64 + d) :: bytes, ?_⟩
  have byte := UInt8.toNat_ofNat_of_lt' (show a * 4 + b / 16 < 256 by omega)
  have byte' := UInt8.toNat_ofNat_of_lt' (show b % 16 * 16 + c / 4 < 256 by omega)
  have byte'' := UInt8.toNat_ofNat_of_lt' (show c % 4 * 64 + d < 256 by omega)
  have first : (a * 4 + b / 16) / 4 = a := by omega
  have second : (a * 4 + b / 16) % 4 * 16 + (b % 16 * 16 + c / 4) / 16 = b := by omega
  have third : (b % 16 * 16 + c / 4) % 16 * 4 + (c % 4 * 64 + d) / 64 = c := by omega
  have fourth : (c % 4 * 64 + d) % 64 = d := by omega
  rw [encode_cons, byte, byte', byte'', first, second, third, fourth]
  rfl

/-- Whole groups of symbols may stand before what is written. -/
theorem IsWritten.append {text : List UInt8} (h : IsWritten text) : ∀ {body : List UInt8},
    body.length % 4 = 0 → (∀ b ∈ body, isSymbol b = true) → IsWritten (body ++ text)
  | [], _, _ => h
  | [_], length, _ => by simp at length
  | [_, _], length, _ => by simp at length
  | [_, _, _], length, _ => by simp at length
  | a :: b :: c :: d :: body, length, sound => by
    simp only [List.forall_mem_cons, isSymbol_iff] at sound
    obtain ⟨⟨a, ha, rfl⟩, ⟨b, hb, rfl⟩, ⟨c, hc, rfl⟩, ⟨d, hd, rfl⟩, sound⟩ := sound
    have length : body.length % 4 = 0 := by
      simp only [List.length_cons] at length
      omega
    exact (h.append length fun b hb => isSymbol_iff.mpr (sound b hb)).cons ha hb hc hd

/-- A group that is filled up is that of one byte to three. -/
theorem Closes.isWritten {group : List UInt8} (four : group.length = 4) (closes : Closes group) :
    IsWritten group := by
  obtain ⟨symbols, pads, rfl, sound, filled, enough, zero⟩ := closes
  rw [List.length_append] at four
  have cases : symbols.length = 2 ∧ pads.length = 2 ∨ symbols.length = 3 ∧ pads.length = 1 ∨
      symbols.length = 4 ∧ pads.length = 0 := by omega
  rcases cases with ⟨two, two'⟩ | ⟨three, one⟩ | ⟨all, none⟩
  · obtain ⟨_, _, rfl⟩ := List.length_eq_two.mp two
    obtain ⟨_, _, rfl⟩ := List.length_eq_two.mp two'
    simp only [List.forall_mem_cons, isSymbol_iff] at sound filled
    obtain ⟨⟨a, ha, rfl⟩, ⟨b, hb, rfl⟩, -⟩ := sound
    obtain ⟨rfl, rfl, -⟩ := filled
    have zero : b % 16 = 0 := by simpa [value?_symbol, ha, hb, spareBits] using zero
    refine ⟨[.ofNat (a * 4 + b / 16)], ?_⟩
    have byte := UInt8.toNat_ofNat_of_lt' (show a * 4 + b / 16 < 256 by omega)
    have first : (a * 4 + b / 16) / 4 = a := by omega
    have second : (a * 4 + b / 16) % 4 * 16 = b := by omega
    rw [encode_one, byte, first, second]
    rfl
  · obtain ⟨_, _, _, rfl⟩ := List.length_eq_three.mp three
    obtain ⟨_, rfl⟩ := List.length_eq_one_iff.mp one
    simp only [List.forall_mem_cons, isSymbol_iff] at sound filled
    obtain ⟨⟨a, ha, rfl⟩, ⟨b, hb, rfl⟩, ⟨c, hc, rfl⟩, -⟩ := sound
    obtain ⟨rfl, -⟩ := filled
    have zero : c % 4 = 0 := by simpa [value?_symbol, ha, hb, hc, spareBits] using zero
    refine ⟨[.ofNat (a * 4 + b / 16), .ofNat (b % 16 * 16 + c / 4)], ?_⟩
    have byte := UInt8.toNat_ofNat_of_lt' (show a * 4 + b / 16 < 256 by omega)
    have byte' := UInt8.toNat_ofNat_of_lt' (show b % 16 * 16 + c / 4 < 256 by omega)
    have first : (a * 4 + b / 16) / 4 = a := by omega
    have second : (a * 4 + b / 16) % 4 * 16 + (b % 16 * 16 + c / 4) / 16 = b := by omega
    have third : (b % 16 * 16 + c / 4) % 16 * 4 = c := by omega
    rw [encode_two, byte, byte', first, second, third]
    rfl
  · obtain rfl := List.eq_nil_of_length_eq_zero none
    have nil : IsWritten [] := ⟨[], rfl⟩
    exact nil.append (by rw [all]) sound

theorem isWritten_of_sound {text : List UInt8} (sound : fault? text = none) : IsWritten text := by
  have length := length_of_sound sound
  by_cases empty : text = []
  · exact ⟨[], by rw [empty]; rfl⟩
  · have some : 0 < text.length := List.length_pos_iff.mpr empty
    have whole : (text.take (text.length - 4)).length % 4 = 0 := by
      rw [List.length_take]
      omega
    have four : (text.drop (text.length - 4)).length = 4 := by
      rw [List.length_drop]
      omega
    rw [← List.take_append_drop (text.length - 4) text, fault?_append whole four] at sound
    obtain ⟨sound, closes⟩ := sound
    rw [← List.take_append_drop (text.length - 4) text]
    exact (closes.isWritten four).append whole sound

theorem values_one (a : UInt8) : (encode [a]).filterMap value? = [a.toNat / 4, a.toNat % 4 * 16] := by
  have ha := a.toNat_lt
  rw [encode_one, List.filterMap_cons_some (value?_symbol (by omega)),
    List.filterMap_cons_some (value?_symbol (by omega)), List.filterMap_cons_none value?_pad,
    List.filterMap_cons_none value?_pad, List.filterMap_nil]

theorem values_two (a b : UInt8) : (encode [a, b]).filterMap value? =
    [a.toNat / 4, a.toNat % 4 * 16 + b.toNat / 16, b.toNat % 16 * 4] := by
  have ha := a.toNat_lt
  have hb := b.toNat_lt
  rw [encode_two, List.filterMap_cons_some (value?_symbol (by omega)),
    List.filterMap_cons_some (value?_symbol (by omega)),
    List.filterMap_cons_some (value?_symbol (by omega)), List.filterMap_cons_none value?_pad,
    List.filterMap_nil]

/-- The values of the symbols are those for which they were written. -/
theorem values_cons (a b c : UInt8) (rest : List UInt8) : (encode (a :: b :: c :: rest)).filterMap value? =
    a.toNat / 4 :: (a.toNat % 4 * 16 + b.toNat / 16) :: (b.toNat % 16 * 4 + c.toNat / 64) ::
      c.toNat % 64 :: (encode rest).filterMap value? := by
  have ha := a.toNat_lt
  have hb := b.toNat_lt
  have hc := c.toNat_lt
  rw [encode_cons, List.filterMap_append, List.filterMap_cons_some (value?_symbol (by omega)),
    List.filterMap_cons_some (value?_symbol (by omega)),
    List.filterMap_cons_some (value?_symbol (by omega)),
    List.filterMap_cons_some (value?_symbol (by omega))]
  rfl

theorem isSymbol_encode (a b c : UInt8) : ∀ s ∈ encode [a, b, c], isSymbol s = true := by
  have ha := a.toNat_lt
  have hb := b.toNat_lt
  have hc := c.toNat_lt
  simp (disch := omega) [encode_three, isSymbol_symbol]

/-- What is written of some bytes ends with a group that is filled up. -/
theorem split_encode : ∀ bytes : List UInt8, bytes ≠ [] → ∃ body last, encode bytes = body ++ last ∧
    body.length % 4 = 0 ∧ last.length = 4 ∧ (∀ b ∈ body, isSymbol b = true) ∧ Closes last
  | [], nonempty => absurd rfl nonempty
  | [a], _ => by
    have ha := a.toNat_lt
    refine ⟨[], encode [a], rfl, rfl, rfl, by simp, [_, _], [pad, pad], rfl, ?_, by simp, by simp, ?_⟩
    · simp (disch := omega) [isSymbol_symbol]
    · rw [List.filterMap_cons_some (value?_symbol (by omega)),
        List.filterMap_cons_some (value?_symbol (by omega))]
      simp [spareBits]
  | [a, b], _ => by
    have ha := a.toNat_lt
    have hb := b.toNat_lt
    refine ⟨[], encode [a, b], rfl, rfl, rfl, by simp, [_, _, _], [pad], rfl, ?_, by simp, by simp, ?_⟩
    · simp (disch := omega) [isSymbol_symbol]
    · rw [List.filterMap_cons_some (value?_symbol (by omega)),
        List.filterMap_cons_some (value?_symbol (by omega)),
        List.filterMap_cons_some (value?_symbol (by omega))]
      simp [spareBits]
  | [a, b, c], _ => by
    refine ⟨[], encode [a, b, c], rfl, rfl, rfl, by simp, encode [a, b, c], [], rfl, ?_, by simp, ?_, ?_⟩
    · exact isSymbol_encode a b c
    · exact Nat.le_of_ble_eq_true rfl
    · have four : (encode [a, b, c]).length % 4 = 0 := by simp [encode_three]
      simp [spareBits, length_filterMap_value? (isSymbol_encode a b c), four]
  | a :: b :: c :: d :: rest, _ => by
    obtain ⟨body, last, same, whole, four, sound, closes⟩ := split_encode (d :: rest) (by simp)
    refine ⟨encode [a, b, c] ++ body, last, ?_, ?_, four, ?_, closes⟩
    · rw [encode_cons, same, encode_cons, List.append_assoc, List.append_assoc]
      rfl
    · have first : (encode [a, b, c]).length = 4 := rfl
      rw [List.length_append, first]
      omega
    · exact List.forall_mem_append.mpr ⟨isSymbol_encode a b c, sound⟩

theorem sound_encode (bytes : List UInt8) : fault? (encode bytes) = none := by
  by_cases empty : bytes = []
  · rw [empty]
    rfl
  · obtain ⟨body, last, same, whole, four, sound, closes⟩ := split_encode bytes empty
    rw [same]
    exact (fault?_append whole four).mpr ⟨sound, closes⟩

/-- From what is written the bytes are read. -/
theorem octets_encode : ∀ bytes : List UInt8, octets ((encode bytes).filterMap value?) = bytes
  | [] => rfl
  | [a] => by
    have byte : a.toNat / 4 * 4 + a.toNat % 4 * 16 / 16 = a.toNat := by omega
    rw [values_one, octets_two, byte, UInt8.ofNat_toNat]
  | [a, b] => by
    have hb := b.toNat_lt
    have byte : a.toNat / 4 * 4 + (a.toNat % 4 * 16 + b.toNat / 16) / 16 = a.toNat := by omega
    have byte' : (a.toNat % 4 * 16 + b.toNat / 16) % 16 * 16 + b.toNat % 16 * 4 / 4 = b.toNat := by omega
    rw [values_two, octets_three, byte, byte', UInt8.ofNat_toNat, UInt8.ofNat_toNat]
  | a :: b :: c :: rest => by
    have hb := b.toNat_lt
    have hc := c.toNat_lt
    have byte : a.toNat / 4 * 4 + (a.toNat % 4 * 16 + b.toNat / 16) / 16 = a.toNat := by omega
    have byte' : (a.toNat % 4 * 16 + b.toNat / 16) % 16 * 16 + (b.toNat % 16 * 4 + c.toNat / 64) / 4 =
        b.toNat := by omega
    have byte'' : (b.toNat % 16 * 4 + c.toNat / 64) % 4 * 64 + c.toNat % 64 = c.toNat := by omega
    rw [values_cons, octets_cons, byte, byte', byte'', UInt8.ofNat_toNat, UInt8.ofNat_toNat,
      UInt8.ofNat_toNat, octets_encode rest]
    rfl

/-- Bytes are read from the text that is written of them and from no other. -/
theorem decode_eq_ok {text bytes : List UInt8} : decode text = .ok bytes ↔ text = encode bytes := by
  have written (bytes : List UInt8) : decode (encode bytes) = .ok bytes := by
    rw [decode, sound_encode, octets_encode]
  constructor
  · intro read
    have sound : fault? text = none := by
      unfold decode at read
      split at read
      · cases read
      · assumption
    obtain ⟨bytes', rfl⟩ := isWritten_of_sound sound
    rw [written] at read
    cases read
    rfl
  · rintro rfl
    exact written bytes

/-! ### The rule of the texts -/

/-- Whether the text is that of the bytes. In groups of three bytes and of four symbols, and with zeros
for the padding on both sides, the bytes are the digits to the base 256 of the number of which the values
of the symbols are the digits to the base 64. -/
inductive IsText (bytes : List UInt8) : List UInt8 → Prop
  | intro (digits : List Nat) (groups pads : Nat) (few : pads < 3)
      (width : bytes.length + pads = 3 * groups) (width' : digits.length + pads = 4 * groups)
      (below : ∀ d ∈ digits, d < 64)
      (same : Nat.ofDigits 64 (digits ++ List.replicate pads 0).reverse =
        Nat.ofDigits 256 (bytes.map UInt8.toNat ++ List.replicate pads 0).reverse) :
      IsText bytes (digits.map symbol ++ List.replicate pads pad)

/-- Bytes have one text. -/
theorem IsText.unique {bytes text text' : List UInt8} (h : IsText bytes text)
    (h' : IsText bytes text') : text = text' := by
  obtain ⟨digits, groups, pads, few, width, length, below, same⟩ := h
  obtain ⟨digits', groups', pads', few', width', length', below', same'⟩ := h'
  obtain ⟨rfl, rfl⟩ : groups = groups' ∧ pads = pads' := by omega
  have small {ds : List Nat} (each : ∀ d ∈ ds, d < 64) :
      ∀ d ∈ (ds ++ List.replicate pads 0).reverse, d < 64 := by
    intro d hd
    rw [List.mem_reverse, List.mem_append, List.mem_replicate] at hd
    rcases hd with own | ⟨-, rfl⟩
    · exact each d own
    · exact Nat.zero_lt_succ 63
  have long : (digits ++ List.replicate pads 0).reverse.length =
      (digits' ++ List.replicate pads 0).reverse.length := by
    simp only [List.length_reverse, List.length_append]
    omega
  have equal := Nat.ofDigits_inj_of_len_eq (by decide) long (small below) (small below')
    (same.trans same'.symm)
  rw [List.append_cancel_right (List.reverse_injective equal)]

/-- A group of three bytes may stand before others. -/
theorem IsText.cons {bytes text : List UInt8} (h : IsText bytes text) (a b c : UInt8) :
    IsText (a :: b :: c :: bytes) (encode [a, b, c] ++ text) := by
  obtain ⟨digits, groups, pads, few, width, width', below, same⟩ := h
  have ha := a.toNat_lt
  have hb := b.toNat_lt
  have hc := c.toNat_lt
  have weight : 64 ^ (digits ++ List.replicate pads 0).length =
      256 ^ (bytes.map UInt8.toNat ++ List.replicate pads 0).length := by
    rw [List.length_append, List.length_append, List.length_map, List.length_replicate, width, width',
      Nat.pow_mul, Nat.pow_mul]
  have value : c.toNat % 64 + 64 * (b.toNat % 16 * 4 + c.toNat / 64) +
      4096 * (a.toNat % 4 * 16 + b.toNat / 16) + 262144 * (a.toNat / 4) =
        c.toNat + 256 * b.toNat + 65536 * a.toNat := by omega
  refine .intro (a.toNat / 4 :: (a.toNat % 4 * 16 + b.toNat / 16) ::
    (b.toNat % 16 * 4 + c.toNat / 64) :: c.toNat % 64 :: digits) (groups + 1) pads few ?_ ?_ ?_ ?_
  · simp only [List.length_cons]
    omega
  · simp only [List.length_cons]
    omega
  · simp only [List.forall_mem_cons]
    exact ⟨by omega, by omega, by omega, by omega, below⟩
  · simp only [List.cons_append, List.map_cons, Nat.ofDigits_reverse_cons, List.length_cons, same,
      Nat.pow_succ, weight]
    generalize 256 ^ _ = w
    generalize Nat.ofDigits 256 _ = n
    calc
      _ = n + w * (c.toNat % 64 + 64 * (b.toNat % 16 * 4 + c.toNat / 64) +
          4096 * (a.toNat % 4 * 16 + b.toNat / 16) + 262144 * (a.toNat / 4)) := by ring
      _ = n + w * (c.toNat + 256 * b.toNat + 65536 * a.toNat) := by rw [value]
      _ = _ := by ring

/-- What is written of bytes is their text. -/
theorem isText_encode : ∀ bytes : List UInt8, IsText bytes (encode bytes)
  | [] => .intro [] 0 0 (by decide) rfl rfl (by simp) rfl
  | [a] => by
    have ha := a.toNat_lt
    refine .intro [a.toNat / 4, a.toNat % 4 * 16] 1 2 (by decide) rfl rfl ?_ ?_
    · simp only [List.forall_mem_cons]
      exact ⟨by omega, by omega, by simp⟩
    · simp [Nat.ofDigits_cons, List.replicate]
      omega
  | [a, b] => by
    have ha := a.toNat_lt
    have hb := b.toNat_lt
    refine .intro [a.toNat / 4, a.toNat % 4 * 16 + b.toNat / 16, b.toNat % 16 * 4] 1 1 (by decide) rfl
      rfl ?_ ?_
    · simp only [List.forall_mem_cons]
      exact ⟨by omega, by omega, by omega, by simp⟩
    · simp [Nat.ofDigits_cons, List.replicate]
      omega
  | a :: b :: c :: rest => by
    rw [encode_cons]
    exact (isText_encode rest).cons a b c

theorem eq_encode_iff {text bytes : List UInt8} : text = encode bytes ↔ IsText bytes text := by
  constructor
  · rintro rfl
    exact isText_encode bytes
  · intro h
    exact h.unique (isText_encode bytes)

end DeskScript.Base64
