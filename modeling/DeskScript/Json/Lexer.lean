import DeskScript.Json.Numeral

/-! The tokens of a text. -/

namespace DeskScript.Json

/-- White space of JSON: blank, tab, line feed and carriage return. -/
def isSpace : Glyph → Bool
  | some c => c == ' ' || c == '\t' || c == '\n' || c == '\r'
  | none => false

def scanWord : (word : List Char) → (gs : List Glyph) → Except Fault (List Glyph)
  | [], gs => .ok gs
  | _ :: _, [] => .error .truncated
  | c :: word, g :: gs => if g = some c then scanWord word gs else .error .malformed

/-- The value `v`, written as a word whose other letters are `word`. -/
def scanLiteral (v : Literal) (word : List Char) (gs : List Glyph) : Token × Option (List Glyph) :=
  match scanWord word gs with
  | .ok rest => (.literal (.ok v), some rest)
  | .error f => (.literal (.error f), none)

/-- The token that begins with `g`, and the text after it unless reading has to end there. -/
def scanToken (g : Glyph) (gs : List Glyph) : Token × Option (List Glyph) :=
  match g with
  | none => (.stray, none)
  | some c =>
    match c with
    | '[' => (.openArray, some gs)
    | ']' => (.closeArray, some gs)
    | '\x7b' => (.openObject, some gs)
    | '\x7d' => (.closeObject, some gs)
    | ',' => (.comma, some gs)
    | ':' => (.colon, some gs)
    | '"' => (scanString gs).map .string id
    | 'n' => scanLiteral .null ['u', 'l', 'l'] gs
    | 't' => scanLiteral (.bool true) ['r', 'u', 'e'] gs
    | 'f' => scanLiteral (.bool false) ['a', 'l', 's', 'e'] gs
    | _ => if c = '-' ∨ c.isDigit then scanNumber c gs else (.stray, none)

theorem length_scanWord {word : List Char} {gs rest : List Glyph}
    (h : scanWord word gs = .ok rest) : rest.length ≤ gs.length := by
  induction word generalizing gs with
  | nil => simp only [scanWord, Except.ok.injEq] at h; simp [h]
  | cons c word ih =>
    cases gs with
    | nil => simp [scanWord] at h
    | cons g gs =>
      simp only [scanWord] at h
      split at h
      · have := ih h
        simp only [List.length_cons]
        omega
      · simp at h

theorem length_scanLiteral {v : Literal} {word : List Char} {gs rest : List Glyph}
    (h : (scanLiteral v word gs).2 = some rest) : rest.length ≤ gs.length := by
  unfold scanLiteral at h
  split at h
  · next heq => simp only [Option.some.injEq] at h; subst h; exact length_scanWord heq
  · simp at h

theorem length_scanToken {g : Glyph} {gs rest : List Glyph}
    (h : (scanToken g gs).2 = some rest) : rest.length ≤ gs.length := by
  unfold scanToken at h
  split at h
  · simp at h
  split at h
  any_goals simp_all
  · exact Nat.le_of_lt (length_scanString h)
  all_goals first | exact length_scanLiteral h | skip
  split at h
  · exact length_scanNumber h
  · simp at h

/-- The tokens of a text, up to the first that cannot be read to its end. -/
def tokens (gs : List Glyph) : List Token :=
  match _h : gs.dropWhile isSpace with
  | [] => []
  | g :: rest =>
    match _h' : scanToken g rest with
    | (t, some rest') => t :: tokens rest'
    | (t, none) => [t]
termination_by gs.length
decreasing_by
  have h₁ := @length_scanToken g rest rest' (by rw [_h'])
  have h₂ := (List.dropWhile_sublist isSpace (l := gs)).length_le
  rw [_h] at h₂
  simp only [List.length_cons] at h₂
  omega

end DeskScript.Json
