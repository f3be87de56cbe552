import DeskScript.Proofs.Numerals
import DeskScript.Proofs.Spelling

/-! The texts of JSON values by the grammar, token by token with blanks between them. A text of a value is
read as that value. -/

namespace DeskScript.Json

/-! ### The grammar -/

/-- The text of a piece of a string: a character as it is or behind a backslash, or a 16-bit unit by four
hexadecimal digits. -/
inductive Piece.Spelled : Piece → List Char → Prop
  | plain {c : Char} (quote : c ≠ '"') (slash : c ≠ '\\') (printable : ¬ c < ' ') : Spelled (.char c) [c]
  | escape {c e : Char} (escaped : escaped? c = some e) : Spelled (.char e) ['\\', c]
  | unit {c₁ c₂ c₃ c₄ : Char} {n₁ n₂ n₃ n₄ : Nat} (first : hexDigit? c₁ = some n₁)
      (second : hexDigit? c₂ = some n₂) (third : hexDigit? c₃ = some n₃) (fourth : hexDigit? c₄ = some n₄) :
      Spelled (.unit (((n₁ * 16 + n₂) * 16 + n₃) * 16 + n₄)) ['\\', 'u', c₁, c₂, c₃, c₄]

/-- The text of a string: its pieces between quotation marks. -/
inductive Quoted.Spelled : Quoted → List Char → Prop
  | intro {pieces : List Piece} {texts : List (List Char)} (h : List.Forall₂ Piece.Spelled pieces texts) :
      Spelled ⟨(spell none pieces).map String.ofList, none⟩ ('"' :: (texts.flatten ++ ['"']))

/-- One digit or more. -/
inductive Digits : List Nat → List Char → Prop
  | intro {ds : List Nat} (some : ds ≠ []) (small : ∀ d ∈ ds, d < 10) : Digits ds (ds.map Nat.digitChar)

inductive Fraction : Option (List Nat) → List Char → Prop
  | absent : Fraction none []
  | present {ds : List Nat} {cs : List Char} (digits : Digits ds cs) : Fraction (some ds) ('.' :: cs)

inductive Exponent : Option (Bool × List Nat) → List Char → Prop
  | absent : Exponent none []
  | bare {ds : List Nat} {cs : List Char} {mark : Char} (marked : mark = 'e' ∨ mark = 'E')
      (digits : Digits ds cs) : Exponent (some (false, ds)) (mark :: cs)
  | plus {ds : List Nat} {cs : List Char} {mark : Char} (marked : mark = 'e' ∨ mark = 'E')
      (digits : Digits ds cs) : Exponent (some (false, ds)) (mark :: '+' :: cs)
  | minus {ds : List Nat} {cs : List Char} {mark : Char} (marked : mark = 'e' ∨ mark = 'E')
      (digits : Digits ds cs) : Exponent (some (true, ds)) (mark :: '-' :: cs)

/-- A number without its sign. No digit stands behind a zero that comes first. -/
inductive Numeral.Unsigned : Numeral → List Char → Prop
  | intro {negative : Bool} {whole : List Nat} {fraction : Option (List Nat)}
      {exponent : Option (Bool × List Nat)} {ws fs es : List Char} (digits : Digits whole ws)
      (zero : ∀ ds, whole = 0 :: ds → ds = []) (behind : Fraction fraction fs) (power : Exponent exponent es) :
      Unsigned ⟨negative, whole, fraction, exponent⟩ (ws ++ (fs ++ es))

def Numeral.Spelled (n : Numeral) (cs : List Char) : Prop :=
  if n.negative then ∃ rest, cs = '-' :: rest ∧ n.Unsigned rest else n.Unsigned cs

inductive Token.Spelled : Token → List Char → Prop
  | openArray : Spelled .openArray ['[']
  | closeArray : Spelled .closeArray [']']
  | openObject : Spelled .openObject ['\x7b']
  | closeObject : Spelled .closeObject ['\x7d']
  | comma : Spelled .comma [',']
  | colon : Spelled .colon [':']
  | null : Spelled (.literal (.ok .null)) ['n', 'u', 'l', 'l']
  | yes : Spelled (.literal (.ok (.bool true))) ['t', 'r', 'u', 'e']
  | no : Spelled (.literal (.ok (.bool false))) ['f', 'a', 'l', 's', 'e']
  | number {n : Numeral} {cs : List Char} (h : n.Spelled cs) : Spelled (.number n.value none) cs
  | string {q : Quoted} {cs : List Char} (h : q.Spelled cs) : Spelled (.string q) cs

def Blank (cs : List Char) : Prop := ∀ c ∈ cs, isSpace (some c) = true

/-- The text is that of the tokens in a row, with blanks before, between and behind them. -/
inductive Lexes : List Char → List Token → Prop
  | nil {blanks : List Char} (blank : Blank blanks) : Lexes blanks []
  | cons {blanks word rest : List Char} {t : Token} {ts : List Token} (blank : Blank blanks)
      (spelled : t.Spelled word) (others : Lexes rest ts) : Lexes (blanks ++ (word ++ rest)) (t :: ts)

/-! ### Numbers -/

/-- No number goes on with `cs`. -/
def Stops (cs : List Char) : Prop :=
  ∀ c ∈ cs.head?, c.isDigit = false ∧ c ≠ '.' ∧ ¬ (c = 'e' ∨ c = 'E')

section

variable {ds : List Nat} {cs rest : List Char}

theorem digit?_digitChar {d : Nat} (h : d < 10) : digit? (some (Nat.digitChar d)) = some d := by
  have all : ∀ d < 10, digit? (some (Nat.digitChar d)) = some d := by decide
  exact all d h

theorem spanDigits_of_not_digit (h : ∀ c ∈ rest.head?, c.isDigit = false) :
    spanDigits (rest.map some) = ([], rest.map some) := by
  cases rest with
  | nil => rfl
  | cons c rest =>
    have none : digit? (some c) = none := by simp [digit?, h c rfl]
    rw [List.map_cons, spanDigits, none]

theorem Digits.spanDigits (h : Digits ds cs) (stop : ∀ c ∈ rest.head?, c.isDigit = false) :
    spanDigits ((cs ++ rest).map some) = (ds, rest.map some) := by
  obtain ⟨-, small⟩ := h
  induction ds with
  | nil => exact spanDigits_of_not_digit stop
  | cons d ds ih =>
    obtain ⟨first, others⟩ := List.forall_mem_cons.mp small
    rw [List.map_cons, List.cons_append, List.map_cons, Json.spanDigits, digit?_digitChar first, ih others]
    rfl

theorem Digits.someDigits (h : Digits ds cs) (stop : ∀ c ∈ rest.head?, c.isDigit = false) :
    someDigits ((cs ++ rest).map some) = .ok (ds, rest.map some) := by
  have span := h.spanDigits stop
  obtain ⟨some, -⟩ := h
  obtain ⟨d, ds, rfl⟩ := List.exists_cons_of_ne_nil some
  rw [Json.someDigits, span]

theorem Digits.wholeDigits (h : Digits ds cs) (zero : ∀ es, ds = 0 :: es → es = [])
    (stop : ∀ c ∈ rest.head?, c.isDigit = false) :
    wholeDigits ((cs ++ rest).map some) = .ok (ds, rest.map some) := by
  rw [Json.wholeDigits, h.someDigits stop]
  split
  · rename_i e es _ same
    cases same
    cases zero _ rfl
  · rfl

theorem Fraction.scan {o : Option (List Nat)} (h : Fraction o cs)
    (stop : ∀ c ∈ rest.head?, c.isDigit = false ∧ c ≠ '.') :
    scanFraction ((cs ++ rest).map some) = .ok (o, rest.map some) := by
  cases h with
  | absent =>
    refine scanFraction_of_no_point ?_
    rw [List.nil_append, List.head?_map]
    intro head
    obtain ⟨c, head, same⟩ := Option.map_eq_some_iff.mp head
    exact (stop c head).2 (Option.some.inj same)
  | present digits =>
    rw [List.cons_append, List.map_cons, scanFraction, digits.someDigits fun c hc => (stop c hc).1]
    rfl

/-- Digits do not begin with a sign. -/
theorem Digits.head (h : Digits ds cs) : ∃ c cs', cs = c :: cs' ∧ c.isDigit = true := by
  obtain ⟨some, small⟩ := h
  obtain ⟨d, ds, rfl⟩ := List.exists_cons_of_ne_nil some
  have all : ∀ d < 10, (Nat.digitChar d).isDigit = true := by decide
  exact ⟨_, _, rfl, all d (small d List.mem_cons_self)⟩

theorem Exponent.scan {o : Option (Bool × List Nat)} (h : Exponent o cs) (stop : Stops rest) :
    scanExponent ((cs ++ rest).map some) = .ok (o, rest.map some) := by
  have noDigit : ∀ c ∈ rest.head?, c.isDigit = false := fun c hc => (stop c hc).1
  have signed {ds : List Nat} {cs : List Char} (negative : Bool) (digits : Digits ds cs) :
      scanExponentDigits negative ((cs ++ rest).map some) = .ok (some (negative, ds), rest.map some) := by
    rw [scanExponentDigits, digits.someDigits noDigit]
    rfl
  cases h with
  | absent =>
    refine scanExponent_of_no_mark fun c head => ?_
    rw [List.nil_append, List.head?_map] at head
    obtain ⟨c, head, same⟩ := Option.map_eq_some_iff.mp head
    cases same
    exact (stop c head).2.2
  | bare marked digits =>
    have own := signed false digits
    obtain ⟨c, cs, rfl, digit⟩ := digits.head
    rw [List.cons_append, List.map_cons, List.cons_append, List.map_cons]
    unfold scanExponent
    dsimp only
    rw [if_pos marked]
    split
    · rename_i same
      cases same
      cases digit
    · rename_i same
      cases same
      cases digit
    · exact own
  | plus marked digits =>
    rw [List.cons_append, List.map_cons, List.cons_append, List.map_cons]
    unfold scanExponent
    dsimp only
    rw [if_pos marked]
    exact signed false digits
  | minus marked digits =>
    rw [List.cons_append, List.map_cons, List.cons_append, List.map_cons]
    unfold scanExponent
    dsimp only
    rw [if_pos marked]
    exact signed true digits

/-- Neither a fraction nor an exponent begins with a digit, and no exponent with a point. -/
theorem Exponent.head {o : Option (Bool × List Nat)} (h : Exponent o cs) (stop : Stops rest) :
    ∀ c ∈ (cs ++ rest).head?, c.isDigit = false ∧ c ≠ '.' := by
  cases h with
  | absent => exact fun c hc => ⟨(stop c hc).1, (stop c hc).2.1⟩
  | bare marked digits | plus marked digits | minus marked digits =>
    intro c hc
    cases hc
    rcases marked with rfl | rfl <;> decide

theorem Fraction.head {o : Option (List Nat)} (h : Fraction o cs)
    (stop : ∀ c ∈ rest.head?, c.isDigit = false ∧ c ≠ '.') :
    ∀ c ∈ (cs ++ rest).head?, c.isDigit = false := by
  cases h with
  | absent => exact fun c hc => (stop c hc).1
  | present digits =>
    intro c hc
    cases hc
    rfl

theorem Numeral.Unsigned.scan {n : Numeral} (h : n.Unsigned cs) (stop : Stops rest) :
    scanNumeral n.negative ((cs ++ rest).map some) = .ok (n, rest.map some) := by
  obtain ⟨digits, zero, behind, power⟩ := h
  have noPoint := power.head stop
  rw [List.append_assoc, List.append_assoc, scanNumeral, digits.wholeDigits zero (behind.head noPoint)]
  change (scanFraction _ >>= _) = _
  rw [behind.scan noPoint]
  change (scanExponent _ >>= _) = _
  rw [power.scan stop]
  rfl

theorem Numeral.Unsigned.head {n : Numeral} (h : n.Unsigned cs) :
    ∃ c cs', cs = c :: cs' ∧ c.isDigit = true := by
  obtain ⟨digits, -, -, -⟩ := h
  obtain ⟨c, cs, rfl, digit⟩ := digits.head
  exact ⟨c, _, List.cons_append, digit⟩

/-- A number is scanned up to where it stops. -/
theorem Numeral.Spelled.scan {n : Numeral} (h : n.Spelled cs) (stop : Stops rest) :
    ∃ c cs', cs = c :: cs' ∧ (c = '-' ∨ c.isDigit = true) ∧
      scanNumber c ((cs' ++ rest).map some) = (.number n.value none, some (rest.map some)) := by
  unfold Numeral.Spelled at h
  split at h
  · rename_i negative
    obtain ⟨cs', rfl, h⟩ := h
    have own := h.scan stop
    rw [negative] at own
    refine ⟨'-', cs', rfl, .inl rfl, ?_⟩
    rw [scanNumber, if_pos rfl, own]
  · rename_i positive
    have own := h.scan stop
    obtain ⟨c, cs', rfl, digit⟩ := h.head
    have plain : c ≠ '-' := by
      rintro rfl
      cases digit
    rw [Bool.not_eq_true] at positive
    rw [positive, List.cons_append, List.map_cons] at own
    refine ⟨c, cs', rfl, .inr digit, ?_⟩
    rw [scanNumber, if_neg plain, own]

end

/-! ### Strings -/

theorem hexUnit_eq {c₁ c₂ c₃ c₄ : Char} {n₁ n₂ n₃ n₄ : Nat} (first : hexDigit? c₁ = some n₁)
    (second : hexDigit? c₂ = some n₂) (third : hexDigit? c₃ = some n₃) (fourth : hexDigit? c₄ = some n₄)
    (gs : List Glyph) :
    hexUnit (some c₁ :: some c₂ :: some c₃ :: some c₄ :: gs) =
      .ok (((n₁ * 16 + n₂) * 16 + n₃) * 16 + n₄) := by
  unfold hexUnit
  simp only [List.take_succ_cons, List.take_zero, List.mapM_cons, List.mapM_nil, Option.bind_some, first,
    second, third, fourth, Option.pure_def, Option.bind_eq_bind]

theorem Piece.Spelled.scan {p : Piece} {cs : List Char} (h : p.Spelled cs) (gs : List Glyph) :
    scanPieces (cs.map some ++ gs) = (scanPieces gs).map (p :: ·) id := by
  cases h with
  | plain quote slash printable => exact scanPieces_plain quote slash printable gs
  | escape escaped =>
    unfold escaped? at escaped
    split at escaped <;> cases escaped
    all_goals
      rw [scanPieces.eq_def]
      rfl
  | unit first second third fourth =>
    rw [scanPieces.eq_def]
    simp only [List.map_cons, List.map_nil, List.cons_append, List.nil_append]
    rw [hexUnit_eq first second third fourth]
    rfl

theorem scanPieces_spelled {pieces : List Piece} {texts : List (List Char)}
    (h : List.Forall₂ Piece.Spelled pieces texts) (gs : List Glyph) :
    scanPieces (texts.flatten.map some ++ some '"' :: gs) = (pieces, .ok gs) := by
  induction h with
  | nil =>
    rw [scanPieces.eq_def]
    rfl
  | cons own others ih =>
    rw [List.flatten_cons, List.map_append, List.append_assoc, own.scan, ih]
    rfl

/-- A string is scanned up to its closing mark. -/
theorem Quoted.Spelled.scan {q : Quoted} {cs : List Char} (h : q.Spelled cs) (gs : List Glyph) :
    ∃ cs', cs = '"' :: cs' ∧ scanString (cs'.map some ++ gs) = (q, some gs) := by
  obtain ⟨pieces⟩ := h
  refine ⟨_, rfl, ?_⟩
  rw [List.map_append, List.append_assoc, List.map_singleton, List.singleton_append, scanString,
    scanPieces_spelled pieces]

/-! ### Tokens -/

/-- What a word is scanned as when the text after it does not go on with it. -/
theorem Token.Spelled.scan {t : Token} {word rest : List Char} (h : t.Spelled word)
    (stop : ∀ exact skipped, t = .number exact skipped → Stops rest) :
    ∃ c cs, word = c :: cs ∧ isSpace (some c) = false ∧
      scanToken (some c) ((cs ++ rest).map some) = (t, some (rest.map some)) := by
  cases h with
  | openArray | closeArray | openObject | closeObject | comma | colon | null | yes | no =>
    exact ⟨_, _, rfl, rfl, rfl⟩
  | number h =>
    obtain ⟨c, cs, rfl, begins, scan⟩ := h.scan (stop _ _ rfl)
    exact ⟨c, cs, rfl, isSpace_of_beginsNumber begins, (scanToken_of_beginsNumber begins _).trans scan⟩
  | string h =>
    obtain ⟨cs, rfl, scan⟩ := h.scan (rest.map some)
    refine ⟨'"', cs, rfl, rfl, ?_⟩
    change ((scanString _).map Token.string id : Token × Option (List Glyph)) = _
    rw [List.map_append, scan]
    rfl

theorem dropWhile_blank {blanks rest : List Char} (blank : Blank blanks) :
    ((blanks ++ rest).map some).dropWhile isSpace = (rest.map some).dropWhile isSpace := by
  rw [List.map_append, List.dropWhile_append_of_pos]
  rw [List.forall_mem_map]
  exact blank

/-- A token after which a number may stand no longer. -/
def Token.Parts (t : Token) : Prop := t = .comma ∨ t = .closeArray ∨ t = .closeObject

/-- Behind each number there is a comma or a closing bracket. -/
def Parted : List Token → Prop
  | [] => True
  | t :: ts => (∀ exact skipped, t = .number exact skipped → ∀ u ∈ ts.head?, u.Parts) ∧ Parted ts

theorem stops_of_space {c : Char} (h : isSpace (some c) = true) (cs : List Char) : Stops (c :: cs) := by
  rintro _ ⟨⟩
  simp only [isSpace, Bool.or_eq_true, beq_iff_eq] at h
  rcases h with ((rfl | rfl) | rfl) | rfl <;> decide

theorem Token.Spelled.stops {t : Token} {word : List Char} (h : t.Spelled word) (parts : t.Parts)
    (rest : List Char) : Stops (word ++ rest) := by
  rintro c hc
  rcases parts with rfl | rfl | rfl
  all_goals
    cases h
    cases hc
    decide

/-- A text stops where it has a blank, a comma or a closing bracket first, or nothing. -/
theorem Lexes.stops {cs : List Char} {ts : List Token} (h : Lexes cs ts) (parts : ∀ u ∈ ts.head?, u.Parts) :
    Stops cs := by
  cases h with
  | nil blank =>
    cases cs with
    | nil => rintro c ⟨⟩
    | cons c blanks => exact stops_of_space (blank c List.mem_cons_self) blanks
  | @cons blanks word rest t ts blank spelled others =>
    cases blanks with
    | nil => exact spelled.stops (parts t rfl) rest
    | cons c blanks => exact stops_of_space (blank c List.mem_cons_self) _

/-- The text of tokens is read as these tokens. -/
theorem Lexes.tokens {cs : List Char} {ts : List Token} (h : Lexes cs ts) (parted : Parted ts) :
    tokens (cs.map some) = ts := by
  induction h with
  | @nil blanks blank =>
    have none := @dropWhile_blank blanks [] blank
    rw [List.append_nil] at none
    exact tokens_of_space none
  | @cons blanks word rest t ts blank spelled others ih =>
    obtain ⟨own, parted⟩ := parted
    obtain ⟨c, cs, rfl, visible, scan⟩ := spelled.scan fun exact skipped same =>
      others.stops (own exact skipped same)
    have head : ((blanks ++ (c :: cs ++ rest)).map some).dropWhile isSpace =
        some c :: (cs ++ rest).map some := by
      rw [dropWhile_blank blank, List.cons_append, List.map_cons, List.dropWhile_cons, visible,
        if_neg Bool.false_ne_true]
    rw [tokens_of_scan head scan, ih parted]

/-! ### Readings -/

mutual

/-- In the tokens of a reading each number has a comma or a closing bracket behind it. -/
theorem parted_tokens (r : Reading) {us : List Token} (last : ∀ u ∈ us.head?, u.Parts) (h : Parted us) :
    Parted (r.tokens ++ us) := by
  cases r with
  | null | bool b | string q => exact ⟨nofun, h⟩
  | number exact skipped => exact ⟨fun _ _ _ => last, h⟩
  | broken f => exact h
  | array items ending =>
    have close : ∀ u ∈ (.closeArray :: us).head?, u.Parts := by
      rintro u ⟨⟩
      exact .inr (.inl rfl)
    have inside := parted_tokensOfItems items true close ⟨nofun, h⟩
    rw [Reading.tokens, List.cons_append, List.append_assoc]
    exact ⟨nofun, inside⟩
  | object members ending =>
    have close : ∀ u ∈ (.closeObject :: us).head?, u.Parts := by
      rintro u ⟨⟩
      exact .inr (.inr rfl)
    have inside := parted_tokensOfMembers members true close ⟨nofun, h⟩
    rw [Reading.tokens, List.cons_append, List.append_assoc]
    exact ⟨nofun, inside⟩

theorem parted_tokensOfItems (rs : List Reading) (first : Bool) {us : List Token}
    (last : ∀ u ∈ us.head?, u.Parts) (h : Parted us) : Parted (Reading.tokensOfItems rs first ++ us) := by
  cases rs with
  | nil => exact h
  | cons r rs =>
    have later := parted_tokensOfItems rs false last h
    have next : ∀ u ∈ (Reading.tokensOfItems rs false ++ us).head?, u.Parts := by
      cases rs with
      | nil => exact last
      | cons r rs =>
        rintro u ⟨⟩
        exact .inl rfl
    have own := parted_tokens r next later
    rw [Reading.tokensOfItems]
    cases first with
    | true => simpa using own
    | false =>
      rw [if_neg Bool.false_ne_true, List.append_assoc, List.append_assoc]
      exact ⟨nofun, own⟩

theorem parted_tokensOfMembers (ms : List (Quoted × Reading)) (first : Bool) {us : List Token}
    (last : ∀ u ∈ us.head?, u.Parts) (h : Parted us) : Parted (Reading.tokensOfMembers ms first ++ us) := by
  cases ms with
  | nil => exact h
  | cons m ms =>
    obtain ⟨key, r⟩ := m
    have later := parted_tokensOfMembers ms false last h
    have next : ∀ u ∈ (Reading.tokensOfMembers ms false ++ us).head?, u.Parts := by
      cases ms with
      | nil => exact last
      | cons m ms =>
        rintro u ⟨⟩
        exact .inl rfl
    have own : Parted (.string key :: .colon :: (r.tokens ++ (Reading.tokensOfMembers ms false ++ us))) :=
      ⟨nofun, nofun, parted_tokens r next later⟩
    rw [Reading.tokensOfMembers]
    cases first with
    | true => simpa using own
    | false =>
      have behind : Parted (.comma :: .string key :: .colon ::
        (r.tokens ++ (Reading.tokensOfMembers ms false ++ us))) := ⟨nofun, own⟩
      simpa using behind

end

/-- The text is one of the reading, which has nothing wrong in it for someone who passes over it. -/
structure Spells (text : String) (r : Reading) : Prop where
  whole : r.Whole
  lexes : Lexes text.toList r.tokens

/-- A text that spells a reading is read as that, with nothing behind it. -/
theorem Spells.document {text : String} {r : Reading} (h : Spells text r) :
    Document.ofText text = ⟨r, false⟩ := by
  have parted := @parted_tokens r [] nofun trivial
  rw [List.append_nil] at parted
  rw [Document.ofText, h.lexes.tokens parted, Document.ofTokens_tokens h.whole]

end DeskScript.Json
