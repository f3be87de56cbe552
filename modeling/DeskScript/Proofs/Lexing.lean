import DeskScript.Json.Reading
import DeskScript.Json.Writer
import Mathlib.Tactic.Common

/-! The tokens of the text of a JSON value. Where a value ends the text goes on with a comma or a closing
bracket, if it goes on at all. -/

namespace DeskScript.Json

theorem tokens_of_space {gs : List Glyph} (h : gs.dropWhile isSpace = []) : tokens gs = [] := by
  rw [tokens]
  split
  · rfl
  · rename_i hd
    rw [h] at hd
    cases hd

theorem tokens_of_scan {gs rest rest' : List Glyph} {g : Glyph} {t : Token}
    (h : gs.dropWhile isSpace = g :: rest) (scan : scanToken g rest = (t, some rest')) :
    tokens gs = t :: tokens rest' := by
  rw [tokens]
  split
  · rename_i hd
    rw [h] at hd
    cases hd
  · rename_i hd
    rw [h] at hd
    cases hd
    rw [scan]

theorem tokens_of_last {gs rest : List Glyph} {g : Glyph} {t : Token}
    (h : gs.dropWhile isSpace = g :: rest) (scan : scanToken g rest = (t, none)) : tokens gs = [t] := by
  rw [tokens]
  split
  · rename_i hd
    rw [h] at hd
    cases hd
  · rename_i hd
    rw [h] at hd
    cases hd
    rw [scan]

/-- What can stand behind a value. -/
def Ends (gs : List Glyph) : Prop := ∀ g ∈ gs.head?, g = some ',' ∨ g = some ']' ∨ g = some '\x7d'

/-! ### Numbers -/

theorem scanFraction_of_no_point {gs : List Glyph} (h : gs.head? ≠ some (some '.')) :
    scanFraction gs = .ok (none, gs) := by
  unfold scanFraction
  split
  · exact absurd rfl h
  · rfl

theorem scanExponent_of_no_mark {gs : List Glyph}
    (h : ∀ c, gs.head? = some (some c) → ¬ (c = 'e' ∨ c = 'E')) : scanExponent gs = .ok (none, gs) := by
  unfold scanExponent
  split
  · rw [if_neg (h _ rfl)]
  · rfl

section

variable {gs rest tail : List Glyph} (ends : Ends tail)
include ends

theorem Ends.digit?_eq_none {g : Glyph} (h : tail.head? = some g) : digit? g = none := by
  rcases ends g h with rfl | rfl | rfl <;> rfl

theorem spanDigits_append (gs : List Glyph) :
    spanDigits (gs ++ tail) = ((spanDigits gs).1, (spanDigits gs).2 ++ tail) := by
  induction gs with
  | nil =>
    cases tail with
    | nil => rfl
    | cons g tail =>
      have none : digit? g = none := ends.digit?_eq_none rfl
      simp only [List.nil_append, spanDigits, none]
  | cons g gs ih =>
    rw [List.cons_append, spanDigits, spanDigits]
    cases digit? g with
    | none => rfl
    | some d =>
      rw [ih]
      rfl

theorem someDigits_append {ds : List Nat} (h : someDigits gs = .ok (ds, rest)) :
    someDigits (gs ++ tail) = .ok (ds, rest ++ tail) := by
  unfold someDigits at h ⊢
  rw [spanDigits_append ends]
  cases hs : spanDigits gs with
  | mk es more =>
    rw [hs] at h
    cases es with
    | nil => cases h
    | cons e es =>
      cases h
      rfl

theorem wholeDigits_append {ds : List Nat} (h : wholeDigits gs = .ok (ds, rest)) :
    wholeDigits (gs ++ tail) = .ok (ds, rest ++ tail) := by
  unfold wholeDigits at h ⊢
  cases hs : someDigits gs with
  | error f =>
    rw [hs] at h
    cases h
  | ok r =>
    obtain ⟨es, more⟩ := r
    rw [someDigits_append ends hs]
    rw [hs] at h
    rcases es with _ | ⟨_ | d, _ | ⟨e, es⟩⟩ <;> cases h <;> rfl

theorem scanFraction_append {o : Option (List Nat)} (h : scanFraction gs = .ok (o, rest)) :
    scanFraction (gs ++ tail) = .ok (o, rest ++ tail) := by
  by_cases point : gs.head? = some (some '.')
  · obtain ⟨gs, rfl⟩ := List.head?_eq_some_iff.mp point
    simp only [List.cons_append, scanFraction] at h ⊢
    cases hs : someDigits gs with
    | error f =>
      rw [hs] at h
      cases h
    | ok r =>
      rw [hs] at h
      rw [someDigits_append ends hs]
      cases h
      rfl
  · rw [scanFraction_of_no_point point] at h
    cases h
    apply scanFraction_of_no_point
    cases gs with
    | nil =>
      intro head
      rcases ends _ head with h | h | h <;> cases h
    | cons g gs => exact point

theorem scanExponentDigits_append {negative : Bool} {o : Option (Bool × List Nat)}
    (h : scanExponentDigits negative gs = .ok (o, rest)) :
    scanExponentDigits negative (gs ++ tail) = .ok (o, rest ++ tail) := by
  unfold scanExponentDigits at h ⊢
  cases hs : someDigits gs with
  | error f =>
    rw [hs] at h
    cases h
  | ok r =>
    rw [hs] at h
    rw [someDigits_append ends hs]
    cases h
    rfl

theorem scanExponent_append {o : Option (Bool × List Nat)} (h : scanExponent gs = .ok (o, rest)) :
    scanExponent (gs ++ tail) = .ok (o, rest ++ tail) := by
  by_cases mark : ∃ c, gs.head? = some (some c) ∧ (c = 'e' ∨ c = 'E')
  · obtain ⟨c, head, hc⟩ := mark
    obtain ⟨gs, rfl⟩ := List.head?_eq_some_iff.mp head
    rw [List.cons_append]
    unfold scanExponent at h ⊢
    dsimp only at h ⊢
    rw [if_pos hc] at h ⊢
    cases gs with
    | nil => cases h
    | cons g gs =>
      rw [List.cons_append]
      split at h
      · rename_i heq
        cases heq
        exact scanExponentDigits_append ends h
      · rename_i heq
        cases heq
        exact scanExponentDigits_append ends h
      · rename_i plus minus
        split
        · rename_i heq
          cases heq
          exact absurd rfl (plus _)
        · rename_i heq
          cases heq
          exact absurd rfl (minus _)
        · exact scanExponentDigits_append ends h
  · have plain : ∀ c, gs.head? = some (some c) → ¬ (c = 'e' ∨ c = 'E') := fun c head hc =>
      mark ⟨c, head, hc⟩
    rw [scanExponent_of_no_mark plain] at h
    cases h
    apply scanExponent_of_no_mark
    cases gs with
    | nil =>
      intro c head
      rcases ends _ head with h | h | h <;> cases h <;> decide
    | cons g gs => exact plain

theorem scanNumeral_append {negative : Bool} {n : Numeral}
    (h : scanNumeral negative gs = .ok (n, rest)) :
    scanNumeral negative (gs ++ tail) = .ok (n, rest ++ tail) := by
  unfold scanNumeral at h ⊢
  cases hw : wholeDigits gs with
  | error f =>
    rw [hw] at h
    cases h
  | ok w =>
    rw [hw] at h
    rw [wholeDigits_append ends hw]
    simp only [bind, Except.bind] at h ⊢
    cases hf : scanFraction w.2 with
    | error f =>
      rw [hf] at h
      cases h
    | ok f =>
      rw [hf] at h
      rw [scanFraction_append ends hf]
      simp only at h ⊢
      cases he : scanExponent f.2 with
      | error f =>
        rw [he] at h
        cases h
      | ok e =>
        rw [he] at h
        rw [scanExponent_append ends he]
        cases h
        rfl

/-- What stands behind a number does not count for it. -/
theorem scanNumber_append {c : Char} {t : Token} (h : scanNumber c gs = (t, some rest)) :
    scanNumber c (gs ++ tail) = (t, some (rest ++ tail)) := by
  unfold scanNumber at h ⊢
  by_cases minus : c = '-'
  · rw [if_pos minus] at h ⊢
    cases hn : scanNumeral true gs with
    | error f =>
      rw [hn] at h
      cases h
    | ok r =>
      rw [hn] at h
      rw [scanNumeral_append ends hn]
      cases h
      rfl
  · rw [if_neg minus] at h ⊢
    cases hn : scanNumeral false (some c :: gs) with
    | error f =>
      rw [hn] at h
      cases h
    | ok r =>
      rw [hn] at h
      rw [← List.cons_append, scanNumeral_append ends hn]
      cases h
      rfl

end

/-! ### Strings -/

/-- The piece as which a written character is read. -/
def pieceOf (c : Char) : Piece :=
  if c.toNat < 0x20 ∧ c ∉ ['\x08', '\t', '\n', '\x0c', '\r'] then .unit c.toNat else .char c

theorem hexUnit_of_control {n : Nat} (h : n < 0x20) (gs : List Glyph) :
    hexUnit (some '0' :: some '0' ::
        some (Nat.digitChar (n / 16)) :: some (Nat.digitChar (n % 16)) :: gs) =
      .ok n := by
  have high : hexDigit? (Nat.digitChar (n / 16)) = some (n / 16) := by
    have : ∀ d < 2, hexDigit? (Nat.digitChar d) = some d := by decide
    exact this _ (by omega)
  have low : hexDigit? (Nat.digitChar (n % 16)) = some (n % 16) := by
    have : ∀ d < 16, hexDigit? (Nat.digitChar d) = some d := by decide
    exact this _ (by omega)
  have zero : hexDigit? '0' = some 0 := by decide
  unfold hexUnit
  simp only [List.take_succ_cons, List.take_zero, List.mapM_cons, List.mapM_nil, Option.bind_some, zero,
    high, low, Option.pure_def, Option.bind_eq_bind]
  congr 1
  omega

theorem scanPieces_plain {c : Char} (quote : c ≠ '"') (slash : c ≠ '\\') (printable : ¬ c < ' ')
    (gs : List Glyph) : scanPieces (some c :: gs) = (scanPieces gs).map (.char c :: ·) id := by
  rw [scanPieces.eq_def]
  split
  · rename_i same
    cases same
  · rename_i same
    cases same
  · rename_i same
    cases same
    exact absurd rfl quote
  · rename_i same
    cases same
    exact absurd rfl slash
  · rename_i same
    cases same
    rw [if_neg printable]

theorem scanPieces_escapeChar (c : Char) (gs : List Glyph) :
    scanPieces ((escapeChar c).map some ++ gs) = (scanPieces gs).map (pieceOf c :: ·) id := by
  unfold escapeChar
  split
  · rw [scanPieces.eq_def]
    rfl
  · rw [scanPieces.eq_def]
    rfl
  · rw [scanPieces.eq_def]
    rfl
  · rw [scanPieces.eq_def]
    rfl
  · rw [scanPieces.eq_def]
    rfl
  · rw [scanPieces.eq_def]
    rfl
  · rw [scanPieces.eq_def]
    rfl
  · rename_i quote slash b t n f r
    split
    · rename_i control
      have piece : pieceOf c = .unit c.toNat := if_pos ⟨control, by simp_all⟩
      rw [piece, scanPieces.eq_def]
      simp only [List.map_cons, List.map_nil, List.cons_append, List.nil_append]
      rw [hexUnit_of_control control]
      rfl
    · rename_i plain
      have piece : pieceOf c = .char c := if_neg fun h => plain h.1
      have printable : ¬ c < ' ' := plain
      rw [piece, List.map_singleton, List.singleton_append]
      exact scanPieces_plain quote slash printable gs

theorem scanPieces_quoted (cs : List Char) (gs : List Glyph) :
    scanPieces ((cs.flatMap escapeChar).map some ++ some '"' :: gs) = (cs.map pieceOf, .ok gs) := by
  induction cs with
  | nil =>
    rw [scanPieces.eq_def]
    rfl
  | cons c cs ih =>
    rw [List.flatMap_cons, List.map_append, List.append_assoc, scanPieces_escapeChar, ih]
    rfl

theorem pieceOf_eq (c : Char) :
    pieceOf c = .char c ∨ c.toNat < 0x20 ∧ pieceOf c = .unit c.toNat := by
  unfold pieceOf
  split
  · rename_i control
    exact .inr ⟨control.1, rfl⟩
  · exact .inl rfl

theorem spell_pieceOf (cs : List Char) : spell none (cs.map pieceOf) = .ok cs := by
  induction cs with
  | nil => rfl
  | cons c cs ih =>
    rw [List.map_cons]
    rcases pieceOf_eq c with piece | ⟨control, piece⟩
    · rw [piece, spell, ih]
      rfl
    · have alone : isTrailing c.toNat = false ∧ isLeading c.toNat = false := by
        simp only [isTrailing, isLeading, Bool.and_eq_false_iff, decide_eq_false_iff_not]
        omega
      rw [piece, spell.eq_def]
      dsimp only
      rw [alone.1, alone.2, if_neg Bool.false_ne_true, if_neg Bool.false_ne_true, ih, Char.ofNat_toNat]
      rfl

theorem scanString_quoted (s : String) (gs : List Glyph) :
    scanString ((s.toList.flatMap escapeChar).map some ++ some '"' :: gs) = (⟨.ok s, none⟩, some gs) := by
  unfold scanString
  rw [scanPieces_quoted s.toList gs]
  dsimp only
  rw [spell_pieceOf, Except.map, String.ofList_toList]

/-- A written string is read as one token. -/
theorem tokens_quotedChars (s : String) (gs : List Glyph) :
    tokens ((quotedChars s).map some ++ gs) = .string ⟨.ok s, none⟩ :: tokens gs := by
  have text : (quotedChars s).map some ++ gs =
      some '"' :: ((s.toList.flatMap escapeChar).map some ++ some '"' :: gs) := by
    simp [quotedChars]
  rw [text]
  apply tokens_of_scan rfl
  change ((scanString _).map Token.string id : Token × Option (List Glyph)) = _
  rw [scanString_quoted]
  rfl

end DeskScript.Json
