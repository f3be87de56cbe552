import DeskScript.Proofs.Lexing

/-! Written numbers are read back: what the text of a number must scan to, whatever stands behind it, and
that all integers do. -/

namespace DeskScript.Json

/-- Whether the text of a number reads as that number. -/
def Number.ReadsBack (n : Number) : Prop :=
  Document.ofText (text (.number n)) = ⟨toReading (.number n), false⟩

theorem foldl_step_over (d : Document) (ts : List Token) :
    ts.foldl Reader.step (.over d) = .over d := by
  induction ts with
  | nil => rfl
  | cons t ts ih => exact ih

theorem tokens_congr {gs gs' : List Glyph} (h : gs.dropWhile isSpace = gs'.dropWhile isSpace) :
    tokens gs = tokens gs' := by
  cases hd : gs'.dropWhile isSpace with
  | nil => rw [tokens_of_space (h.trans hd), tokens_of_space hd]
  | cons g rest =>
    cases hs : scanToken g rest with
    | mk t rest' =>
      cases rest' with
      | none => rw [tokens_of_last (h.trans hd) hs, tokens_of_last hd hs]
      | some rest' => rw [tokens_of_scan (h.trans hd) hs, tokens_of_scan hd hs]

theorem dropWhile_of_tokens {gs : List Glyph} (h : tokens gs = []) : gs.dropWhile isSpace = [] := by
  cases hd : gs.dropWhile isSpace with
  | nil => rfl
  | cons g rest =>
    cases hs : scanToken g rest with
    | mk t rest' =>
      cases rest' with
      | none => rw [tokens_of_last hd hs] at h; cases h
      | some rest' => rw [tokens_of_scan hd hs] at h; cases h

/-- Whether a text begins like a number. -/
def BeginsNumber (cs : List Char) : Prop := ∃ c rest, cs = c :: rest ∧ (c = '-' ∨ c.isDigit = true)

theorem BeginsNumber.append {cs : List Char} (h : BeginsNumber cs) (more : List Char) :
    BeginsNumber (cs ++ more) := by
  obtain ⟨c, rest, rfl, begins⟩ := h
  exact ⟨c, rest ++ more, rfl, begins⟩

theorem beginsNumber_digitChars (n : Nat) : BeginsNumber (Decimal.digitChars n) := by
  unfold Decimal.digitChars
  cases h : Nat.toDigits 10 n with
  | nil => exact absurd h Nat.toDigits_ne_nil
  | cons c cs =>
    refine ⟨c, cs, rfl, .inr ?_⟩
    exact Nat.isDigit_of_mem_toDigits (by decide) (by decide) (h ▸ List.mem_cons_self)

theorem BeginsNumber.take {cs : List Char} (h : BeginsNumber cs) {k : Nat} (hk : 0 < k) :
    BeginsNumber (cs.take k) := by
  obtain ⟨c, rest, rfl, begins⟩ := h
  obtain ⟨k, rfl⟩ := Nat.exists_eq_succ_of_ne_zero (Nat.ne_of_gt hk)
  exact ⟨c, rest.take k, rfl, begins⟩

theorem beginsNumber_positionalChars (d : Decimal) (keepsPoint : Bool) :
    BeginsNumber (d.positionalChars keepsPoint) := by
  unfold Decimal.positionalChars
  dsimp only
  split
  · rw [List.append_assoc]
    exact (beginsNumber_digitChars _).append _
  · split
    · rename_i point
      exact ((beginsNumber_digitChars d.digits).take (by omega)).append _
    · exact ⟨'0', _, rfl, .inr rfl⟩

theorem beginsNumber_scientificChars (d : Decimal) : BeginsNumber d.scientificChars := by
  unfold Decimal.scientificChars
  dsimp only
  rw [List.append_assoc]
  exact ((beginsNumber_digitChars d.digits).take Nat.one_pos).append _

/-- A number begins like one, unless it is not finite. -/
theorem Number.chars_eq (n : Number) : n.chars = ['n', 'u', 'l', 'l'] ∨ BeginsNumber n.chars := by
  cases n with
  | int i =>
    refine .inr ?_
    unfold chars
    dsimp only
    split
    · exact ⟨'-', _, rfl, .inl rfl⟩
    · exact beginsNumber_digitChars i.natAbs
  | real x =>
    unfold chars
    dsimp only
    cases Decimal.ofFloat? Decimal.Style.data.tie x with
    | none => exact .inl rfl
    | some d =>
      refine .inr ?_
      dsimp only
      unfold Decimal.chars
      dsimp only [Decimal.Style.data]
      split
      · exact ⟨'-', _, rfl, .inl rfl⟩
      · split
        · exact beginsNumber_positionalChars d true
        · exact beginsNumber_scientificChars d

theorem scanToken_of_beginsNumber {c : Char} (h : c = '-' ∨ c.isDigit = true) (gs : List Glyph) :
    scanToken (some c) gs = scanNumber c gs := by
  unfold scanToken
  dsimp only
  split
  all_goals first | rw [if_pos h] | exact absurd h (by decide)

theorem isSpace_of_beginsNumber {c : Char} (h : c = '-' ∨ c.isDigit = true) :
    isSpace (some c) = false := by
  cases hs : isSpace (some c) with
  | false => rfl
  | true =>
    simp only [isSpace, Bool.or_eq_true, beq_iff_eq] at hs
    rcases hs with ((rfl | rfl) | rfl) | rfl <;> exact absurd h (by decide)

theorem scanNumber_eq (c : Char) (gs : List Glyph) :
    (∃ v rest, scanNumber c gs = (.number v none, some rest)) ∨
      ∃ f, scanNumber c gs = (.number (.error f) (some .malformed), none) := by
  unfold scanNumber
  split
  · exact .inl ⟨_, _, rfl⟩
  · exact .inr ⟨_, rfl⟩

/-- What a number that is read back is as a token. -/
theorem Number.ReadsBack.scan {n : Number} (h : n.ReadsBack) :
    ∃ c cs rest, n.chars = c :: cs ∧ (c = '-' ∨ c.isDigit = true) ∧
      scanNumber c (cs.map some) = (.number (.ok n) none, some rest) ∧ rest.dropWhile isSpace = [] := by
  have read : Document.ofTokens (tokens (n.chars.map some)) = ⟨toReading (.number n), false⟩ := by
    unfold Number.ReadsBack Document.ofText text at h
    rwa [String.toList_ofList, write, List.append_nil] at h
  rcases n.chars_eq with null | ⟨c, cs, chars, begins⟩
  · rw [null] at read
    have literal : tokens (['n', 'u', 'l', 'l'].map some) = [.literal (.ok .null)] := by
      rw [@tokens_of_scan _ _ [] _ (.literal (.ok .null)) rfl rfl, tokens_of_space rfl]
    rw [literal] at read
    cases read
  · rw [chars, List.map_cons] at read
    have head : (some c :: cs.map some).dropWhile isSpace = some c :: cs.map some := by
      rw [List.dropWhile_cons, isSpace_of_beginsNumber begins, if_neg Bool.false_ne_true]
    rcases scanNumber_eq c (cs.map some) with ⟨v, rest, scan⟩ | ⟨f, scan⟩
    · rw [tokens_of_scan head ((scanToken_of_beginsNumber begins _).trans scan)] at read
      cases more : tokens rest with
      | nil =>
        rw [more] at read
        cases read
        exact ⟨c, cs, rest, chars, begins, scan, dropWhile_of_tokens more⟩
      | cons t ts =>
        rw [more] at read
        have trailing : Document.ofTokens (.number v none :: t :: ts) = ⟨.number v none, true⟩ := by
          change (ts.foldl Reader.step (.over ⟨.number v none, true⟩)).finish = _
          rw [foldl_step_over]
          rfl
        rw [trailing] at read
        cases read
    · rw [tokens_of_last head ((scanToken_of_beginsNumber begins _).trans scan)] at read
      cases read

/-- A written number is read as one token, whatever stands behind it. -/
theorem Number.ReadsBack.tokens_chars {n : Number} (h : n.ReadsBack) {gs : List Glyph} (ends : Ends gs) :
    tokens (n.chars.map some ++ gs) = .number (.ok n) none :: tokens gs := by
  obtain ⟨c, cs, rest, chars, begins, scan, space⟩ := h.scan
  have scan' := scanNumber_append ends scan
  rw [← scanToken_of_beginsNumber begins] at scan'
  rw [chars, List.map_cons, List.cons_append]
  have head : (some c :: (cs.map some ++ gs)).dropWhile isSpace = some c :: (cs.map some ++ gs) := by
    rw [List.dropWhile_cons, isSpace_of_beginsNumber begins, if_neg Bool.false_ne_true]
  rw [tokens_of_scan head scan']
  congr 1
  apply tokens_congr
  rw [List.dropWhile_append, space]
  rfl

/-! ### Integers -/

/-- Each digit of a number by its value. -/
def digitsOf (n : Nat) : List Nat := (Decimal.digitChars n).map fun c => c.toNat - '0'.toNat

theorem foldl_digitsOf (n : Nat) : (digitsOf n).foldl (fun m d => 10 * m + d) 0 = n := by
  have h := @Nat.ofDigitChars_toDigits 10 n (by decide) (by decide)
  rw [Nat.ofDigitChars_eq_foldl] at h
  rw [digitsOf, List.foldl_map]
  exact h

theorem spanDigits_digits {cs : List Char} (h : ∀ c ∈ cs, c.isDigit = true) :
    spanDigits (cs.map some) = (cs.map fun c => c.toNat - '0'.toNat, []) := by
  induction cs with
  | nil => rfl
  | cons c cs ih =>
    obtain ⟨first, others⟩ := List.forall_mem_cons.mp h
    have digit : digit? (some c) = some (c.toNat - '0'.toNat) := if_pos first
    simp only [List.map_cons, spanDigits, digit, ih others]
    rfl

theorem le_foldl_digits (ds : List Nat) (m : Nat) : m ≤ ds.foldl (fun m d => 10 * m + d) m := by
  induction ds generalizing m with
  | nil => exact Nat.le_refl m
  | cons d ds ih => exact Nat.le_trans (by omega) (ih (10 * m + d))

theorem takeDigits_of_lt {ds : List Nat} {m k : Nat}
    (h : ds.foldl (fun m d => 10 * m + d) m < 1 <<< 64) :
    takeDigits m k ds = (ds.foldl (fun m d => 10 * m + d) m, k + ds.length, 0) := by
  induction ds generalizing m k with
  | nil => rfl
  | cons d ds ih =>
    rw [List.foldl_cons] at h
    have lt : 10 * m + d < 1 <<< 64 := Nat.lt_of_le_of_lt (le_foldl_digits ds _) h
    rw [takeDigits, if_pos lt, ih h, List.length_cons, List.foldl_cons]
    congr 2
    omega

/-- No number but zero begins with a zero. -/
theorem head_digitsOf {n : Nat} (h : 0 < n) : ∃ d ds, digitsOf n = d :: ds ∧ d ≠ 0 := by
  induction n using Nat.strongRecOn with
  | ind n ih =>
    unfold digitsOf Decimal.digitChars
    by_cases small : n < 10
    · rw [Nat.toDigits_of_lt_base small]
      refine ⟨_, [], rfl, ?_⟩
      have digits : ∀ m < 10, 0 < m → (Nat.digitChar m).toNat - '0'.toNat ≠ 0 := by decide
      exact digits n small h
    · obtain ⟨d, ds, tens, nonzero⟩ := ih (n / 10) (by omega) (by omega)
      rw [Nat.toDigits_of_base_le (by decide) (by omega), List.map_append]
      change ∃ d ds, digitsOf (n / 10) ++ _ = d :: ds ∧ d ≠ 0
      rw [tens]
      exact ⟨d, _, rfl, nonzero⟩

theorem wholeDigits_digitChars (n : Nat) :
    wholeDigits ((Decimal.digitChars n).map some) = .ok (digitsOf n, []) := by
  have span : spanDigits ((Decimal.digitChars n).map some) = (digitsOf n, []) :=
    spanDigits_digits fun c hc => Nat.isDigit_of_mem_toDigits (by decide) (by decide) hc
  unfold wholeDigits someDigits
  rw [span]
  by_cases zero : n = 0
  · subst zero
    rfl
  · obtain ⟨d, ds, digits, nonzero⟩ := head_digitsOf (Nat.pos_of_ne_zero zero)
    obtain ⟨d, rfl⟩ := Nat.exists_eq_succ_of_ne_zero nonzero
    rw [digits]
    rfl

theorem scanNumeral_digitChars (negative : Bool) (n : Nat) :
    scanNumeral negative ((Decimal.digitChars n).map some) =
      .ok (⟨negative, digitsOf n, none, none⟩, []) := by
  unfold scanNumeral
  rw [wholeDigits_digitChars]
  rfl

theorem value_digitsOf {negative : Bool} {n : Nat} (room : n < 1 <<< 64)
    (sign : negative = true → 0 < n ∧ n ≤ 1 <<< 63) :
    (⟨negative, digitsOf n, none, none⟩ : Numeral).value = .ok (.int (if negative then -n else n)) := by
  unfold Numeral.value
  have taken := takeDigits_of_lt (k := 0) (by rw [foldl_digitsOf]; exact room : _ < 1 <<< 64)
  rw [foldl_digitsOf] at taken
  rw [taken]
  cases negative with
  | false => rfl
  | true =>
    obtain ⟨positive, least⟩ := sign rfl
    have least : n ≤ 9223372036854775808 := least
    simp [positive, least]

theorem Number.readsBack_of_scan {n : Number} {c : Char} {cs : List Char} (chars : n.chars = c :: cs)
    (begins : c = '-' ∨ c.isDigit = true)
    (scan : scanNumber c (cs.map some) = (.number (.ok n) none, some [])) : n.ReadsBack := by
  have head : (some c :: cs.map some).dropWhile isSpace = some c :: cs.map some := by
    rw [List.dropWhile_cons, isSpace_of_beginsNumber begins, if_neg Bool.false_ne_true]
  have tokens : tokens (n.chars.map some) = [.number (.ok n) none] := by
    rw [chars, List.map_cons, tokens_of_scan head ((scanToken_of_beginsNumber begins _).trans scan),
      tokens_of_space rfl]
  unfold ReadsBack Document.ofText text
  rw [String.toList_ofList, write, List.append_nil, tokens]
  rfl

theorem Number.readsBack_natural {n : Nat} (greatest : n < 1 <<< 64) : (Number.int n).ReadsBack := by
  obtain ⟨c, cs, digits, begins⟩ := beginsNumber_digitChars n
  have plain : c ≠ '-' := by
    rintro rfl
    have mem : '-' ∈ Decimal.digitChars n := digits ▸ List.mem_cons_self
    have digit := Nat.isDigit_of_mem_toDigits (by decide) (by decide) mem
    exact absurd digit (by decide)
  have chars : (Number.int n).chars = c :: cs := by
    unfold Number.chars
    dsimp only
    rw [if_neg (Int.not_lt.mpr (Int.natCast_nonneg n)), Int.natAbs_natCast, digits]
    rfl
  have value := @value_digitsOf false n greatest (fun h => by cases h)
  refine readsBack_of_scan chars begins ?_
  unfold scanNumber
  rw [if_neg plain, ← List.map_cons, ← digits, scanNumeral_digitChars]
  dsimp only
  rw [value, if_neg Bool.false_ne_true]

theorem Number.readsBack_negative {n : Nat} (positive : 0 < n) (least : n ≤ 1 <<< 63) :
    (Number.int (-n)).ReadsBack := by
  have chars : (Number.int (-n)).chars = '-' :: Decimal.digitChars n := by
    have below : (-n : Int) < 0 := by omega
    unfold Number.chars
    dsimp only
    rw [if_pos below, Int.natAbs_neg, Int.natAbs_natCast]
    rfl
  have value := @value_digitsOf true n (Nat.lt_of_le_of_lt least (by decide)) (fun _ => ⟨positive, least⟩)
  refine readsBack_of_scan chars (.inl rfl) ?_
  unfold scanNumber
  rw [if_pos rfl, scanNumeral_digitChars]
  dsimp only
  rw [value, if_pos rfl]

/-- Integers are read back. -/
theorem Number.readsBack_int {n : Int} (least : -(1 <<< 63) ≤ n) (greatest : n < 1 <<< 64) :
    (Number.int n).ReadsBack := by
  have least : -9223372036854775808 ≤ n := least
  have greatest : n < 18446744073709551616 := greatest
  obtain ⟨m, rfl | rfl⟩ := Int.eq_nat_or_neg n
  · have room : m < 18446744073709551616 := by omega
    exact readsBack_natural room
  · by_cases zero : m = 0
    · subst zero
      exact readsBack_natural (by decide)
    · have room : m ≤ 9223372036854775808 := by omega
      exact readsBack_negative (by omega) room

end DeskScript.Json
