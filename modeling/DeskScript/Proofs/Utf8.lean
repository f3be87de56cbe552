import DeskScript.Text.Utf8
import Mathlib.Data.List.Induction

/-! Texts as bytes: a text is read of the bytes that it is in UTF-8, and of no others. -/

namespace DeskScript.Text

variable {b : UInt8} {rest bytes tail : List UInt8} {c : Char} {n x : Nat}

/-! ### The bytes of a character -/

/-- A byte that tells six more bits of a character. -/
def later (x : Nat) : UInt8 := .ofNat (x + 0x80)

/-- The bytes of a character in UTF-8, as few as its number allows. -/
inductive Spelled (c : Char) : List UInt8 → Prop
  | one (below : c.toNat < 0x80) : Spelled c [.ofNat c.toNat]
  | two {a x : Nat} (number : c.toNat = a * 0x40 + x) (least : 0x80 ≤ c.toNat)
      (below : c.toNat < 0x800) (hx : x < 64) : Spelled c [.ofNat (a + 0xC0), later x]
  | three {a x y : Nat} (number : c.toNat = a * 0x1000 + x * 0x40 + y) (least : 0x800 ≤ c.toNat)
      (below : c.toNat < 0x10000) (hx : x < 64) (hy : y < 64) :
      Spelled c [.ofNat (a + 0xE0), later x, later y]
  | four {a x y z : Nat} (number : c.toNat = a * 0x40000 + x * 0x1000 + y * 0x40 + z)
      (least : 0x10000 ≤ c.toNat) (hx : x < 64) (hy : y < 64) (hz : z < 64) :
      Spelled c [.ofNat (a + 0xF0), later x, later y, later z]

theorem toNat_bounds (c : Char) : c.toNat < 0xD800 ∨ 0xDFFF < c.toNat ∧ c.toNat < 0x110000 := c.valid

theorem utf8EncodeChar_eq (c : Char) : String.utf8EncodeChar c =
    if c.toNat ≤ 127 then [.ofNat c.toNat]
    else if c.toNat ≤ 2047 then [.ofNat (c.toNat / 64 % 32 + 192), later (c.toNat % 64)]
    else if c.toNat ≤ 65535 then
      [.ofNat (c.toNat / 4096 % 16 + 224), later (c.toNat / 64 % 64), later (c.toNat % 64)]
    else
      [.ofNat (c.toNat / 262144 % 8 + 240), later (c.toNat / 4096 % 64), later (c.toNat / 64 % 64),
        later (c.toNat % 64)] := rfl

theorem spelled_iff : Spelled c bytes ↔ String.utf8EncodeChar c = bytes := by
  have bounds := toNat_bounds c
  rw [utf8EncodeChar_eq]
  constructor
  · rintro (⟨below⟩ | @⟨a, x, number, least, below, hx⟩ | @⟨a, x, y, number, least, below, hx, hy⟩ |
      @⟨a, x, y, z, number, least, hx, hy, hz⟩)
    · rw [if_pos (by omega)]
    · have ha : c.toNat / 64 % 32 = a := by omega
      have hx : c.toNat % 64 = x := by omega
      rw [if_neg (by omega), if_pos (by omega), ha, hx]
    · have ha : c.toNat / 4096 % 16 = a := by omega
      have hx : c.toNat / 64 % 64 = x := by omega
      have hy : c.toNat % 64 = y := by omega
      rw [if_neg (by omega), if_neg (by omega), if_pos (by omega), ha, hx, hy]
    · have ha : c.toNat / 262144 % 8 = a := by omega
      have hx : c.toNat / 4096 % 64 = x := by omega
      have hy : c.toNat / 64 % 64 = y := by omega
      have hz : c.toNat % 64 = z := by omega
      rw [if_neg (by omega), if_neg (by omega), if_neg (by omega), ha, hx, hy, hz]
  · rintro rfl
    split
    · exact .one (by omega)
    split
    · exact .two (by omega) (by omega) (by omega) (by omega)
    split
    · exact .three (by omega) (by omega) (by omega) (by omega) (by omega)
    · exact .four (by omega) (by omega) (by omega) (by omega) (by omega)

/-! ### A character is read of its bytes -/

theorem continuation?_eq_some : continuation? b = some x ↔ x < 64 ∧ b = later x := by
  have below : b.toNat < 256 := b.toNat_lt
  rw [continuation?, Option.ite_none_right_eq_some, Option.some.injEq, UInt8.le_iff_toNat_le,
    UInt8.lt_iff_toNat_lt, later, ← UInt8.toNat_inj, UInt8.toNat_ofNat']
  change (0x80 ≤ b.toNat ∧ b.toNat < 0xC0) ∧ b.toNat - 0x80 = x ↔ _
  omega

theorem mapM_continuation? {xs : List Nat} :
    bytes.mapM continuation? = some xs ↔ (∀ x ∈ xs, x < 64) ∧ bytes = xs.map later := by
  induction bytes generalizing xs with
  | nil => cases xs <;> simp
  | cons b bytes ih =>
    rw [List.mapM_cons]
    cases xs with
    | nil => simp [Option.bind_eq_some_iff]
    | cons x xs =>
      simp only [bind, Option.bind_eq_some_iff, continuation?_eq_some, ih, pure, Option.some.injEq,
        List.cons.injEq, List.forall_mem_cons, List.map_cons]
      grind

theorem mapM_take (xs : List Nat) (h : ∀ x ∈ xs, x < 64) (rest : List UInt8) :
    ((xs.map later ++ rest).take xs.length).mapM continuation? = some xs := by
  rw [List.take_left' (List.length_map later)]
  exact mapM_continuation?.mpr ⟨h, rfl⟩

theorem toNat_byte (h : n < 256) : (UInt8.ofNat n).toNat = n := UInt8.toNat_ofNat_of_lt' h

theorem toNat_later (h : x < 64) : (later x).toNat = x + 0x80 := toNat_byte (by omega)

theorem eq_ofNat (h : b.toNat = n) : b = .ofNat n := by
  rw [← h, UInt8.ofNat_toNat]

theorem toNat_ofNat (h : n.isValidChar) : (Char.ofNat n).toNat = n := by
  rw [Char.ofNat, dif_pos h]
  rfl

theorem length_of_take_eq {ys : List UInt8} (h : rest.take n = ys) (all : ys.length = n) :
    n ≤ rest.length := by
  rw [← h, List.length_take] at all
  omega

theorem Spelled.charAt? (h : Spelled c (b :: tail)) (rest : List UInt8) :
    charAt? b (tail ++ rest) = some (c, tail.length) := by
  have bounds := toNat_bounds c
  generalize whole : b :: tail = bytes at h
  rw [Text.charAt?]
  simp only [UInt8.le_iff_toNat_le, UInt8.lt_iff_toNat_lt, UInt8.toNat_ofNat, Nat.reduceMod,
    Nat.reducePow]
  cases h with
  | one below =>
    cases whole
    rw [toNat_byte (by omega), if_pos below, Char.ofNat_toNat]
    rfl
  | @two a x number least below hx =>
    cases whole
    have next : (([later x] ++ rest).take 1).mapM continuation? = some [x] :=
      mapM_take [x] (by simpa using hx) rest
    rw [toNat_byte (by omega), if_neg (by omega), if_pos (by omega), next]
    dsimp only
    rw [Nat.add_sub_cancel, ← number, Char.ofNat_toNat]
    rfl
  | @three a x y number least below hx hy =>
    cases whole
    have next : (([later x, later y] ++ rest).take 2).mapM continuation? = some [x, y] :=
      mapM_take [x, y] (by simp [hx, hy]) rest
    rw [toNat_byte (by omega), if_neg (by omega), if_neg (by omega), if_pos (by omega), next]
    dsimp only
    rw [Nat.add_sub_cancel, ← number, if_pos (by omega), Char.ofNat_toNat]
    rfl
  | @four a x y z number least hx hy hz =>
    cases whole
    have next : (([later x, later y, later z] ++ rest).take 3).mapM continuation? = some [x, y, z] :=
      mapM_take [x, y, z] (by simp [hx, hy, hz]) rest
    rw [toNat_byte (by omega), if_neg (by omega), if_neg (by omega), if_neg (by omega),
      if_pos (by omega), next]
    dsimp only
    rw [Nat.add_sub_cancel, ← number, if_pos (by omega), Char.ofNat_toNat]
    rfl

theorem spelled_of_charAt? (h : charAt? b rest = some (c, n)) :
    n ≤ rest.length ∧ Spelled c (b :: rest.take n) := by
  have below : b.toNat < 256 := b.toNat_lt
  simp only [charAt?, UInt8.le_iff_toNat_le, UInt8.lt_iff_toNat_lt, UInt8.toNat_ofNat, Nat.reduceMod,
    Nat.reducePow] at h
  split at h
  case isTrue range =>
    cases h
    have number := toNat_ofNat (n := b.toNat) (.inl (by omega))
    have one : Spelled (Char.ofNat b.toNat) [.ofNat (Char.ofNat b.toNat).toNat] := .one (by omega)
    rw [number, UInt8.ofNat_toNat] at one
    exact ⟨Nat.zero_le _, one⟩
  split at h
  case isTrue range =>
    obtain ⟨a, ha⟩ : ∃ a, b.toNat = a + 0xC0 := ⟨b.toNat - 0xC0, by omega⟩
    rw [ha, Nat.add_sub_cancel] at h
    split at h <;> cases h
    case h_1 x read =>
      obtain ⟨hx, next⟩ := mapM_continuation?.mp read
      simp only [List.forall_mem_cons] at hx
      have number := toNat_ofNat (n := a * 0x40 + x) (.inl (by omega))
      refine ⟨length_of_take_eq next rfl, ?_⟩
      rw [eq_ofNat ha, next]
      exact .two number (by omega) (by omega) hx.1
  split at h
  case isTrue range =>
    obtain ⟨a, ha⟩ : ∃ a, b.toNat = a + 0xE0 := ⟨b.toNat - 0xE0, by omega⟩
    rw [ha, Nat.add_sub_cancel] at h
    split at h
    case h_1 x y read =>
      obtain ⟨hx, next⟩ := mapM_continuation?.mp read
      simp only [List.forall_mem_cons] at hx
      obtain ⟨allowed, h⟩ := Option.ite_none_right_eq_some.mp h
      cases h
      have number := toNat_ofNat (n := a * 0x1000 + x * 0x40 + y) (by unfold Nat.isValidChar; omega)
      refine ⟨length_of_take_eq next rfl, ?_⟩
      rw [eq_ofNat ha, next]
      exact .three number (by omega) (by omega) hx.1 hx.2.1
    case h_2 => cases h
  split at h
  case isTrue range =>
    obtain ⟨a, ha⟩ : ∃ a, b.toNat = a + 0xF0 := ⟨b.toNat - 0xF0, by omega⟩
    rw [ha, Nat.add_sub_cancel] at h
    split at h
    case h_1 x y z read =>
      obtain ⟨hx, next⟩ := mapM_continuation?.mp read
      simp only [List.forall_mem_cons] at hx
      obtain ⟨allowed, h⟩ := Option.ite_none_right_eq_some.mp h
      cases h
      have number := toNat_ofNat (n := a * 0x40000 + x * 0x1000 + y * 0x40 + z)
        (by unfold Nat.isValidChar; omega)
      refine ⟨length_of_take_eq next rfl, ?_⟩
      rw [eq_ofNat ha, next]
      exact .four number (by omega) hx.1 hx.2.1 hx.2.2.1
    case h_2 => cases h
  cases h

/-! ### Texts -/

theorem decodeUtf8_utf8EncodeChar (c : Char) (rest : List UInt8) :
    decodeUtf8 (String.utf8EncodeChar c ++ rest) = some c :: decodeUtf8 rest := by
  obtain ⟨b, tail, encoded⟩ := List.exists_cons_of_ne_nil (String.utf8EncodeChar_ne_nil (c := c))
  have read := (spelled_iff.mpr encoded).charAt? rest
  rw [encoded, List.cons_append, decodeUtf8]
  simp only [read, List.drop_left]

theorem decodeUtf8_eq_iff {cs : List Char} :
    decodeUtf8 bytes = cs.map some ↔ cs.flatMap String.utf8EncodeChar = bytes := by
  constructor
  · intro h
    fun_induction decodeUtf8 bytes generalizing cs with
    | case1 => rw [List.map_eq_nil_iff.mp h.symm, List.flatMap_nil]
    | case2 b rest c n read ih =>
      obtain ⟨d, cs, rfl, same, others⟩ := List.map_eq_cons_iff.mp h.symm
      cases same
      obtain ⟨-, spelled⟩ := spelled_of_charAt? read
      rw [List.flatMap_cons, spelled_iff.mp spelled, ih others.symm, List.cons_append,
        List.take_append_drop]
    | case3 b rest none ih =>
      obtain ⟨c, cs, -, same, -⟩ := List.map_eq_cons_iff.mp h.symm
      cases same
  · rintro rfl
    induction cs with
    | nil => rw [List.flatMap_nil, decodeUtf8, List.map_nil]
    | cons c cs ih => rw [List.flatMap_cons, decodeUtf8_utf8EncodeChar, ih, List.map_cons]

theorem mapM_id_eq_some {os : List (Option Char)} {cs : List Char} :
    os.mapM id = some cs ↔ os = cs.map some := by
  induction os generalizing cs with
  | nil => cases cs <;> simp
  | cons o os ih =>
    rw [List.mapM_cons]
    cases cs <;> simp [Option.bind_eq_some_iff, ih]

/-- A text is read of the bytes that it is in UTF-8, and of no others. -/
theorem ofUtf8?_eq_some_iff {s : String} :
    ofUtf8? bytes = some s ↔ s.toList.flatMap String.utf8EncodeChar = bytes := by
  rw [ofUtf8?, Option.map_eq_some_iff]
  constructor
  · rintro ⟨cs, read, rfl⟩
    rw [String.toList_ofList]
    exact decodeUtf8_eq_iff.mp (mapM_id_eq_some.mp read)
  · intro same
    exact ⟨s.toList, mapM_id_eq_some.mpr (decodeUtf8_eq_iff.mpr same), String.ofList_toList⟩

theorem isSome_ofUtf8? : (ofUtf8? bytes).isSome ↔ bytes.toByteArray.IsValidUTF8 := by
  rw [Option.isSome_iff_exists]
  constructor
  · rintro ⟨s, read⟩
    exact ⟨s.toList, by rw [List.utf8Encode, ofUtf8?_eq_some_iff.mp read]⟩
  · rintro ⟨cs, same⟩
    refine ⟨.ofList cs, ofUtf8?_eq_some_iff.mpr ?_⟩
    rw [String.toList_ofList]
    exact (List.toByteArray_inj.mp same).symm

/-! ### One more character -/

/-- A byte below 128 is a character by itself, and no part of another. -/
theorem Spelled.alone {front : List UInt8} (h : Spelled c (front ++ [b])) (small : b.toNat < 0x80) :
    front = [] ∧ b.toNat = c.toNat := by
  have last : (front ++ [b]).getLast? = some b := List.getLast?_concat
  generalize whole : front ++ [b] = bytes at h last
  cases h with
  | one below =>
    obtain rfl : UInt8.ofNat c.toNat = b := Option.some.inj last
    exact ⟨List.append_left_eq_self.mp whole, toNat_byte (by omega)⟩
  | @two a x number least below hx =>
    obtain rfl : later x = b := Option.some.inj last
    rw [toNat_later hx] at small
    omega
  | @three a x y number least below hx hy =>
    obtain rfl : later y = b := Option.some.inj last
    rw [toNat_later hy] at small
    omega
  | @four a x y z number least hx hy hz =>
    obtain rfl : later z = b := Option.some.inj last
    rw [toNat_later hz] at small
    omega

theorem flatMap_eq_concat_iff {cs : List Char} (small : c.toNat < 0x80) :
    cs.flatMap String.utf8EncodeChar = bytes ++ [.ofNat c.toNat] ↔
      ∃ front, cs = front ++ [c] ∧ front.flatMap String.utf8EncodeChar = bytes := by
  have byte : (UInt8.ofNat c.toNat).toNat = c.toNat := toNat_byte (by omega)
  constructor
  · intro same
    cases cs using List.reverseRecOn with
    | nil => simp at same
    | append_singleton front d =>
      have hd := (List.dropLast_concat_getLast (String.utf8EncodeChar_ne_nil (c := d))).symm
      rw [List.flatMap_append, List.flatMap_singleton, hd, ← List.append_assoc] at same
      obtain ⟨before, last⟩ := List.append_inj' same rfl
      rw [List.singleton_inj.mp last] at hd
      obtain ⟨none, number⟩ := (spelled_iff.mpr hd).alone (byte.symm ▸ small)
      rw [none, List.append_nil] at before
      exact ⟨front, by rw [Char.toNat_inj.mp (byte.symm.trans number)], before⟩
  · rintro ⟨front, rfl, rfl⟩
    rw [List.flatMap_append, List.flatMap_singleton, spelled_iff.mp (.one small)]

theorem ofUtf8?_concat (small : c.toNat < 0x80) (bytes : List UInt8) :
    ofUtf8? (bytes ++ [.ofNat c.toNat]) = (ofUtf8? bytes).map (·.push c) := by
  ext s
  rw [ofUtf8?_eq_some_iff, flatMap_eq_concat_iff small, Option.map_eq_some_iff]
  constructor
  · rintro ⟨front, hs, before⟩
    refine ⟨.ofList front, ofUtf8?_eq_some_iff.mpr (by rwa [String.toList_ofList]), ?_⟩
    rw [← String.toList_inj, String.toList_push, String.toList_ofList, hs]
  · rintro ⟨t, read, rfl⟩
    exact ⟨t.toList, String.toList_push c, ofUtf8?_eq_some_iff.mp read⟩

end DeskScript.Text
