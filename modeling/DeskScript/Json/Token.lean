import DeskScript.Json.Basic

/-! The tokens of a JSON text. A token that cannot be read to its end is the last one. -/

namespace DeskScript.Json

/-- One place of a text under reading: a character, or a byte that belongs to none. -/
abbrev Glyph := Option Char

/-- A string between quotation marks: its text, and what is wrong with it for a reader that skips
it. Skipping looks for the closing mark only, so that surrogates may stand alone. -/
structure Quoted where
  exact : Except Fault String
  skipped : Option Fault

inductive Literal where
  | null
  | bool (b : Bool)

/-- A token. For a number, too, the exact value and the fault met in skipping it may differ: a
number may be too large, and one that the text ends in is malformed only for a skipping reader. -/
inductive Token where
  | openArray | closeArray | openObject | closeObject | comma | colon
  | literal (value : Except Fault Literal)
  | number (exact : Except Fault Number) (skipped : Option Fault)
  | string (q : Quoted)
  | stray

/-! ### Strings -/

/-- A part of a string: a character, a 16-bit unit given by its number, or a byte of no character. -/
inductive Piece where
  | char (c : Char)
  | unit (n : Nat)
  | stray

def escaped? : Char → Option Char
  | '"' => some '"'
  | '\\' => some '\\'
  | '/' => some '/'
  | 'b' => some '\x08'
  | 'f' => some '\x0c'
  | 'n' => some '\n'
  | 'r' => some '\r'
  | 't' => some '\t'
  | _ => none

def hexDigit? (c : Char) : Option Nat :=
  if '0' ≤ c ∧ c ≤ '9' then some (c.toNat - '0'.toNat)
  else if 'a' ≤ c ∧ c ≤ 'f' then some (c.toNat - 'a'.toNat + 10)
  else if 'A' ≤ c ∧ c ≤ 'F' then some (c.toNat - 'A'.toNat + 10)
  else none

def byteCount (gs : List Glyph) : Nat :=
  gs.foldl (fun n g => n + match g with | some c => c.utf8Size | none => 1) 0

/-- The number spelled by the four hexadecimal digits at the head of `gs`. The text ends too early
when it has less than four bytes. -/
def hexUnit (gs : List Glyph) : Except Fault Nat :=
  match gs.take 4 |>.mapM (·.bind hexDigit?) with
  | some [a, b, c, d] => .ok (((a * 16 + b) * 16 + c) * 16 + d)
  | _ => .error (if byteCount gs < 4 then .truncated else .malformed)

/-- The pieces of a string up to its closing mark, and what follows the mark. -/
def scanPieces : List Glyph → List Piece × Except Fault (List Glyph)
  | [] => ([], .error .truncated)
  | none :: rest => ((scanPieces rest).map (.stray :: ·) id)
  | some '"' :: rest => ([], .ok rest)
  | some '\\' :: rest =>
    match rest with
    | [] => ([], .error .truncated)
    | none :: _ => ([], .error .malformed)
    | some 'u' :: rest =>
      match hexUnit rest with
      | .ok n => (scanPieces (rest.drop 4)).map (.unit n :: ·) id
      | .error f => ([], .error f)
    | some c :: rest =>
      match escaped? c with
      | some e => (scanPieces rest).map (.char e :: ·) id
      | none => ([], .error .malformed)
  | some c :: rest =>
    if c < ' ' then ([], .error .malformed) else (scanPieces rest).map (.char c :: ·) id
termination_by gs => gs.length
decreasing_by all_goals simp only [List.length_drop, List.length_cons]; omega

def isLeading (n : Nat) : Bool := 0xD800 ≤ n && n < 0xDC00

def isTrailing (n : Nat) : Bool := 0xDC00 ≤ n && n < 0xE000

/-- The characters that the pieces of a string spell, the string itself ending in `ending`, if that
is a fault. A surrogate must have its partner, and no byte may be left over. -/
def spell (ending : Option Fault) : List Piece → Except Fault (List Char)
  | [] =>
    match ending with
    | none => .ok []
    | some f => .error f
  | .char c :: ps => do return c :: (← spell ending ps)
  | .stray :: ps => do
    let _ ← spell ending ps
    .error .malformed
  | .unit n :: ps =>
    if isTrailing n then .error .malformed
    else if isLeading n then
      match ps with
      | [] => .error (ending.getD .malformed)
      | .unit m :: ps => do
        if isTrailing m then
          return Char.ofNat (0x10000 + (n - 0xD800) * 0x400 + (m - 0xDC00)) :: (← spell ending ps)
        else .error .malformed
      | _ :: _ => .error .malformed
    else do return Char.ofNat n :: (← spell ending ps)

/-- The string whose opening mark stands before `gs`, and what follows it. -/
def scanString (gs : List Glyph) : Quoted × Option (List Glyph) :=
  match scanPieces gs with
  | (pieces, .ok rest) => (⟨(spell none pieces).map String.ofList, none⟩, some rest)
  | (pieces, .error f) => (⟨(spell (some f) pieces).map String.ofList, some f⟩, none)

theorem length_scanPieces {gs rest : List Glyph} (h : (scanPieces gs).2 = .ok rest) :
    rest.length < gs.length := by
  fun_induction scanPieces gs with
  | case1 => simp at h
  | case2 rest' ih => have := ih (by simpa using h); simp only [List.length_cons]; omega
  | case3 rest' => simp only [Except.ok.injEq] at h; simp [h]
  | case4 => simp at h
  | case5 => simp at h
  | case6 rest' n _ ih =>
    have := ih (by simpa using h)
    simp only [List.length_drop] at this
    simp only [List.length_cons]; omega
  | case7 => simp at h
  | case8 c rest' _ e _ ih => have := ih (by simpa using h); simp only [List.length_cons]; omega
  | case9 => simp at h
  | case10 => simp at h
  | case11 c rest' _ _ _ ih => have := ih (by simpa using h); simp only [List.length_cons]; omega

theorem length_scanString {gs rest : List Glyph} (h : (scanString gs).2 = some rest) :
    rest.length < gs.length := by
  unfold scanString at h
  split at h
  · next heq => simp only [Option.some.injEq] at h; subst h; exact length_scanPieces (by rw [heq])
  · simp at h

end DeskScript.Json
