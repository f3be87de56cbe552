/-! Texts from bytes. -/

namespace DeskScript.Text

def continuation? (b : UInt8) : Option Nat :=
  if 0x80 ≤ b ∧ b < 0xC0 then some (b.toNat - 0x80) else none

/-- The character that begins with the byte `b` and continues in `rest`, with the number of bytes
it takes from `rest`. Overlong forms, surrogates and numbers that are too large are none. -/
def charAt? (b : UInt8) (rest : List UInt8) : Option (Char × Nat) :=
  if b < 0x80 then some (Char.ofNat b.toNat, 0)
  else if 0xC2 ≤ b ∧ b < 0xE0 then
    match rest.take 1 |>.mapM continuation? with
    | some [x] => some (Char.ofNat ((b.toNat - 0xC0) * 0x40 + x), 1)
    | _ => none
  else if 0xE0 ≤ b ∧ b < 0xF0 then
    match rest.take 2 |>.mapM continuation? with
    | some [x, y] =>
      let n := (b.toNat - 0xE0) * 0x1000 + x * 0x40 + y
      if 0x800 ≤ n ∧ ¬(0xD800 ≤ n ∧ n < 0xE000) then some (Char.ofNat n, 2) else none
    | _ => none
  else if 0xF0 ≤ b ∧ b < 0xF5 then
    match rest.take 3 |>.mapM continuation? with
    | some [x, y, z] =>
      let n := (b.toNat - 0xF0) * 0x40000 + x * 0x1000 + y * 0x40 + z
      if 0x10000 ≤ n ∧ n < 0x110000 then some (Char.ofNat n, 3) else none
    | _ => none
  else none

/-- The characters that `bytes` spell in UTF-8; none for each byte that belongs to no character. -/
def decodeUtf8 : List UInt8 → List (Option Char)
  | [] => []
  | b :: rest =>
    match charAt? b rest with
    | some (c, n) => some c :: decodeUtf8 (rest.drop n)
    | none => none :: decodeUtf8 rest
termination_by bytes => bytes.length
decreasing_by all_goals simp only [List.length_drop, List.length_cons]; omega

/-- The text that `bytes` spell, if every byte belongs to a character. -/
def ofUtf8? (bytes : List UInt8) : Option String :=
  ((decodeUtf8 bytes).mapM id).map String.ofList

end DeskScript.Text
