import DeskScript.Proofs.Digits
import DeskScript.Proofs.Documents
import DeskScript.Proofs.Grammar
import DeskScript.Proofs.Inverting
import Mathlib.Data.List.TakeWhile

/-! What has been scanned is in the grammar: of a text that is read as a closed array or object, with
nothing behind it, every token is spelled as the grammar says. -/

namespace DeskScript.Json

section

variable {cs : List Char} {gs : List Glyph} {ds : List Nat}

theorem exists_of_map_some {c : Char} (h : cs.map some = some c :: gs) :
    ∃ cs', cs = c :: cs' ∧ cs'.map some = gs := by
  obtain ⟨c', cs', rfl, same, more⟩ := List.map_eq_cons_iff.mp h
  cases same
  exact ⟨cs', rfl, more⟩

/-! ### Numbers -/

theorem digitChar_of_digit? {c : Char} {d : Nat} (h : digit? (some c) = some d) :
    c = Nat.digitChar d ∧ d < 10 := by
  unfold digit? at h
  dsimp only at h
  split at h
  · rename_i digit
    cases h
    obtain ⟨small, same⟩ := Text.digitChar_of_isDigit digit
    exact ⟨same.symm, small⟩
  · cases h

theorem exists_of_spanDigits (h : spanDigits (cs.map some) = (ds, gs)) :
    ∃ rest, cs = ds.map Nat.digitChar ++ rest ∧ gs = rest.map some ∧ ∀ d ∈ ds, d < 10 := by
  induction cs generalizing ds with
  | nil =>
    cases h
    exact ⟨[], rfl, rfl, List.forall_mem_nil _⟩
  | cons c cs ih =>
    rw [List.map_cons, spanDigits] at h
    split at h
    · rename_i d digit
      obtain ⟨rfl, small⟩ := digitChar_of_digit? digit
      cases h
      obtain ⟨rest, same, more, smalls⟩ := ih rfl
      exact ⟨rest, congrArg _ same, more, List.forall_mem_cons.mpr ⟨small, smalls⟩⟩
    · cases h
      exact ⟨c :: cs, rfl, rfl, List.forall_mem_nil _⟩

theorem exists_of_someDigits (h : someDigits (cs.map some) = .ok (ds, gs)) :
    ∃ word rest, cs = word ++ rest ∧ gs = rest.map some ∧ Digits ds word := by
  unfold someDigits at h
  split at h
  · cases h
  · rename_i some span
    cases h
    obtain ⟨rest, same, more, small⟩ := exists_of_spanDigits span
    exact ⟨_, rest, same, more, .intro (fun none => some none) small⟩

theorem exists_of_wholeDigits (h : wholeDigits (cs.map some) = .ok (ds, gs)) :
    ∃ word rest, cs = word ++ rest ∧ gs = rest.map some ∧ Digits ds word ∧
      ∀ es, ds = 0 :: es → es = [] := by
  unfold wholeDigits at h
  split at h
  · cases h
  · rename_i single
    obtain ⟨word, rest, same, more, digits⟩ := exists_of_someDigits h
    refine ⟨word, rest, same, more, digits, ?_⟩
    rintro (_ | ⟨e, es⟩) rfl
    · rfl
    · exact absurd h (single _ _ _)

theorem exists_of_scanFraction {o : Option (List Nat)} (h : scanFraction (cs.map some) = .ok (o, gs)) :
    ∃ word rest, cs = word ++ rest ∧ gs = rest.map some ∧ Fraction o word := by
  by_cases point : (cs.map some).head? = some (some '.')
  · obtain ⟨gs, same⟩ := List.head?_eq_some_iff.mp point
    obtain ⟨cs, rfl, -⟩ := exists_of_map_some same
    obtain ⟨⟨ds, more⟩, digits, h⟩ := exists_of_bind h
    cases h
    obtain ⟨word, rest, rfl, rfl, own⟩ := exists_of_someDigits digits
    exact ⟨'.' :: word, rest, rfl, rfl, .present own⟩
  · rw [scanFraction_of_no_point point] at h
    cases h
    exact ⟨[], cs, rfl, rfl, .absent⟩

theorem exists_of_scanExponentDigits {negative : Bool} {o : Option (Bool × List Nat)}
    (h : scanExponentDigits negative (cs.map some) = .ok (o, gs)) :
    ∃ ds word rest, o = some (negative, ds) ∧ cs = word ++ rest ∧ gs = rest.map some ∧ Digits ds word := by
  obtain ⟨⟨ds, more⟩, digits, h⟩ := exists_of_bind h
  cases h
  obtain ⟨word, rest, same, more, digits⟩ := exists_of_someDigits digits
  exact ⟨ds, word, rest, rfl, same, more, digits⟩

theorem exists_of_scanExponent {o : Option (Bool × List Nat)}
    (h : scanExponent (cs.map some) = .ok (o, gs)) :
    ∃ word rest, cs = word ++ rest ∧ gs = rest.map some ∧ Exponent o word := by
  by_cases mark : ∃ c cs', cs = c :: cs' ∧ (c = 'e' ∨ c = 'E')
  · obtain ⟨c, cs, rfl, marked⟩ := mark
    rw [List.map_cons] at h
    unfold scanExponent at h
    dsimp only at h
    rw [if_pos marked] at h
    split at h
    · rename_i same
      obtain ⟨cs, rfl, rfl⟩ := exists_of_map_some same
      obtain ⟨ds, word, rest, rfl, rfl, rfl, digits⟩ := exists_of_scanExponentDigits h
      exact ⟨c :: '+' :: word, rest, rfl, rfl, .plus marked digits⟩
    · rename_i same
      obtain ⟨cs, rfl, rfl⟩ := exists_of_map_some same
      obtain ⟨ds, word, rest, rfl, rfl, rfl, digits⟩ := exists_of_scanExponentDigits h
      exact ⟨c :: '-' :: word, rest, rfl, rfl, .minus marked digits⟩
    · obtain ⟨ds, word, rest, rfl, rfl, rfl, digits⟩ := exists_of_scanExponentDigits h
      exact ⟨c :: word, rest, rfl, rfl, .bare marked digits⟩
  · rw [scanExponent_of_no_mark] at h
    · cases h
      exact ⟨[], cs, rfl, rfl, .absent⟩
    · intro c head marked
      obtain ⟨gs, same⟩ := List.head?_eq_some_iff.mp head
      obtain ⟨cs, rfl, -⟩ := exists_of_map_some same
      exact mark ⟨c, cs, rfl, marked⟩

theorem exists_of_scanNumeral {negative : Bool} {n : Numeral}
    (h : scanNumeral negative (cs.map some) = .ok (n, gs)) :
    ∃ word rest, cs = word ++ rest ∧ gs = rest.map some ∧ n.negative = negative ∧ n.Unsigned word := by
  obtain ⟨⟨whole, gs₁⟩, first, h⟩ := exists_of_bind h
  obtain ⟨⟨fraction, gs₂⟩, second, h⟩ := exists_of_bind h
  obtain ⟨⟨exponent, gs₃⟩, third, h⟩ := exists_of_bind h
  cases h
  obtain ⟨ws, rest, rfl, rfl, digits, zero⟩ := exists_of_wholeDigits first
  obtain ⟨fs, rest, rfl, rfl, behind⟩ := exists_of_scanFraction second
  obtain ⟨es, rest, rfl, rfl, power⟩ := exists_of_scanExponent third
  refine ⟨ws ++ (fs ++ es), rest, ?_, rfl, rfl, .intro digits zero behind power⟩
  rw [List.append_assoc, List.append_assoc]

theorem exists_of_scanNumber {c : Char} {t : Token} (h : scanNumber c (cs.map some) = (t, some gs)) :
    ∃ word rest, c :: cs = word ++ rest ∧ gs = rest.map some ∧ t.Spelled word := by
  unfold scanNumber at h
  split at h
  · rename_i n more scan
    cases h
    split at scan
    · rename_i minus
      obtain ⟨word, rest, rfl, rfl, negative, unsigned⟩ := exists_of_scanNumeral scan
      refine ⟨c :: word, rest, rfl, rfl, .number ?_⟩
      rw [Numeral.Spelled, if_pos negative, minus]
      exact ⟨word, rfl, unsigned⟩
    · rw [← List.map_cons] at scan
      obtain ⟨word, rest, same, rfl, positive, unsigned⟩ := exists_of_scanNumeral scan
      refine ⟨word, rest, same, rfl, .number ?_⟩
      rw [Numeral.Spelled, positive, if_neg Bool.false_ne_true]
      exact unsigned
  · cases h

/-! ### Strings -/

theorem exists_of_mapM_cons {α β : Type} {f : α → Option β} {as : List α} {b : β} {bs : List β}
    (h : as.mapM f = some (b :: bs)) : ∃ a as', as = a :: as' ∧ f a = some b ∧ as'.mapM f = some bs := by
  cases as with
  | nil => cases h
  | cons a as =>
    rw [List.mapM_cons] at h
    obtain ⟨b', own, h⟩ := Option.bind_eq_some_iff.mp h
    obtain ⟨bs', others, h⟩ := Option.bind_eq_some_iff.mp h
    cases h
    exact ⟨a, as, rfl, own, others⟩

theorem exists_of_hexUnit {n : Nat} (h : hexUnit gs = .ok n) :
    ∃ c₁ c₂ c₃ c₄ rest, gs = some c₁ :: some c₂ :: some c₃ :: some c₄ :: rest ∧
      (Piece.unit n).Spelled ['\\', 'u', c₁, c₂, c₃, c₄] := by
  unfold hexUnit at h
  split at h
  · rename_i n₁ n₂ n₃ n₄ digits
    cases h
    obtain ⟨g₁, rest, take, first, digits⟩ := exists_of_mapM_cons digits
    obtain ⟨g₂, rest, rfl, second, digits⟩ := exists_of_mapM_cons digits
    obtain ⟨g₃, rest, rfl, third, digits⟩ := exists_of_mapM_cons digits
    obtain ⟨g₄, rest, rfl, fourth, digits⟩ := exists_of_mapM_cons digits
    obtain ⟨c₁, rfl, first⟩ := Option.bind_eq_some_iff.mp first
    obtain ⟨c₂, rfl, second⟩ := Option.bind_eq_some_iff.mp second
    obtain ⟨c₃, rfl, third⟩ := Option.bind_eq_some_iff.mp third
    obtain ⟨c₄, rfl, fourth⟩ := Option.bind_eq_some_iff.mp fourth
    refine ⟨c₁, c₂, c₃, c₄, rest ++ gs.drop 4, ?_, .unit first second third fourth⟩
    have whole := List.take_append_drop 4 gs
    rw [take] at whole
    exact whole.symm
  · cases h

/-- The text goes on with the pieces and a closing mark, and then with `gs`. -/
def Closes (cs : List Char) (pieces : List Piece) (gs : List Glyph) : Prop :=
  ∃ texts rest, cs = texts.flatten ++ '"' :: rest ∧ gs = rest.map some ∧
    List.Forall₂ Piece.Spelled pieces texts

theorem closes_of_piece {p : Piece} {word : List Char} {pieces : List Piece} (spelled : p.Spelled word)
    (others : ∀ {ps}, scanPieces (cs.map some) = (ps, .ok gs) → Closes cs ps gs)
    (h : (scanPieces (cs.map some)).map (p :: ·) id = (pieces, .ok gs)) : Closes (word ++ cs) pieces gs := by
  cases own : scanPieces (cs.map some) with
  | mk ps stop =>
    rw [own] at h
    cases h
    obtain ⟨texts, rest, rfl, same, later⟩ := others own
    refine ⟨word :: texts, rest, ?_, same, .cons spelled later⟩
    rw [List.flatten_cons, List.append_assoc]

theorem closes_of_scanPieces {pieces : List Piece} (h : scanPieces (cs.map some) = (pieces, .ok gs)) :
    Closes cs pieces gs := by
  generalize text : cs.map some = all at h
  fun_induction scanPieces all generalizing cs pieces with
  | case1 => cases h
  | case2 rest ih =>
    obtain ⟨c, cs, rfl, none, -⟩ := List.map_eq_cons_iff.mp text
    cases none
  | case3 rest =>
    obtain ⟨cs, rfl, rfl⟩ := exists_of_map_some text
    cases h
    exact ⟨[], cs, rfl, rfl, .nil⟩
  | case4 => cases h
  | case5 => cases h
  | case6 rest n unit ih =>
    obtain ⟨cs, rfl, behind⟩ := exists_of_map_some text
    obtain ⟨cs, rfl, same⟩ := exists_of_map_some behind
    obtain ⟨c₁, c₂, c₃, c₄, rest, rfl, spelled⟩ := exists_of_hexUnit unit
    obtain ⟨cs, rfl, second⟩ := exists_of_map_some same
    obtain ⟨cs, rfl, third⟩ := exists_of_map_some second
    obtain ⟨cs, rfl, fourth⟩ := exists_of_map_some third
    obtain ⟨cs, rfl, rfl⟩ := exists_of_map_some fourth
    exact closes_of_piece spelled (ih rfl) h
  | case7 => cases h
  | case8 c rest _ e escaped ih =>
    obtain ⟨cs, rfl, behind⟩ := exists_of_map_some text
    obtain ⟨cs, rfl, rfl⟩ := exists_of_map_some behind
    exact closes_of_piece (.escape escaped) (ih rfl) h
  | case9 => cases h
  | case10 => cases h
  | case11 c rest quote slash printable ih =>
    obtain ⟨cs, rfl, rfl⟩ := exists_of_map_some text
    exact closes_of_piece (.plain quote slash printable) (ih rfl) h

theorem exists_of_scanString {q : Quoted} (h : scanString (cs.map some) = (q, some gs)) :
    ∃ word rest, '"' :: cs = word ++ rest ∧ gs = rest.map some ∧ q.Spelled word := by
  unfold scanString at h
  split at h
  · rename_i pieces more scan
    cases h
    obtain ⟨texts, rest, rfl, rfl, spelled⟩ := closes_of_scanPieces scan
    exact ⟨_, rest, by simp, rfl, .intro spelled⟩
  · cases h

/-! ### Tokens -/

theorem exists_of_scanWord {word : List Char} (h : scanWord word (cs.map some) = .ok gs) :
    ∃ rest, cs = word ++ rest ∧ gs = rest.map some := by
  induction word generalizing cs with
  | nil =>
    cases h
    exact ⟨cs, rfl, rfl⟩
  | cons c word ih =>
    cases cs with
    | nil => cases h
    | cons d cs =>
      rw [List.map_cons, scanWord] at h
      split at h
      · rename_i same
        cases same
        obtain ⟨rest, rfl, more⟩ := ih h
        exact ⟨rest, rfl, more⟩
      · cases h

theorem exists_of_scanLiteral {v : Literal} {t : Token} {c : Char} {letters : List Char}
    (h : scanLiteral v letters (cs.map some) = (t, some gs))
    (spelled : (Token.literal (.ok v)).Spelled (c :: letters)) :
    ∃ word rest, c :: cs = word ++ rest ∧ gs = rest.map some ∧ t.Spelled word := by
  unfold scanLiteral at h
  split at h
  · rename_i more scan
    cases h
    obtain ⟨rest, rfl, rfl⟩ := exists_of_scanWord scan
    exact ⟨c :: letters, rest, rfl, rfl, spelled⟩
  · cases h

/-- What is scanned as a token and gone on behind has a text of the token first. -/
theorem exists_of_scanToken {c : Char} {t : Token} (h : scanToken (some c) (cs.map some) = (t, some gs)) :
    ∃ word rest, c :: cs = word ++ rest ∧ gs = rest.map some ∧ t.Spelled word := by
  unfold scanToken at h
  dsimp only at h
  split at h
  case h_7 =>
    cases own : scanString (cs.map some) with
    | mk q more =>
      rw [own] at h
      cases h
      exact (exists_of_scanString own).imp fun word => .imp fun rest h => ⟨h.1, h.2.1, .string h.2.2⟩
  case h_8 => exact exists_of_scanLiteral h .null
  case h_9 => exact exists_of_scanLiteral h .yes
  case h_10 => exact exists_of_scanLiteral h .no
  case h_11 =>
    split at h
    · exact exists_of_scanNumber h
    · cases h
  all_goals
    cases h
    refine ⟨[_], cs, rfl, rfl, ?_⟩
    constructor

end

/-- The token has been scanned to its end. -/
def Token.Ended : Token → Prop
  | .literal (.error _) | .stray => False
  | .number _ skipped => skipped = none
  | .string q => q.skipped = none
  | _ => True

/-- Reading a text ends early only in a token that has no end. -/
theorem not_ended_of_scanToken {g : Glyph} {gs : List Glyph} {t : Token} (h : scanToken g gs = (t, none)) :
    ¬ t.Ended := by
  have literal (v : Literal) (letters : List Char) (own : scanLiteral v letters gs = (t, none)) :
      ¬ t.Ended := by
    unfold scanLiteral at own
    split at own <;> cases own
    exact id
  unfold scanToken at h
  split at h
  · cases h
    exact id
  split at h
  case h_7 =>
    cases own : scanString gs with
    | mk q more =>
      rw [own] at h
      cases h
      unfold scanString at own
      split at own <;> cases own
      exact nofun
  case h_8 | h_9 | h_10 => exact literal _ _ h
  case h_11 =>
    split at h
    · unfold scanNumber at h
      split at h <;> cases h
      exact nofun
    · cases h
      exact id
  all_goals cases h

theorem exists_of_dropWhile {cs : List Char} {g : Glyph} {gs : List Glyph}
    (h : (cs.map some).dropWhile isSpace = g :: gs) :
    ∃ blanks c rest, cs = blanks ++ c :: rest ∧ g = some c ∧ gs = rest.map some ∧ Blank blanks := by
  rw [List.dropWhile_map] at h
  obtain ⟨c, rest, behind, rfl, rfl⟩ := List.map_eq_cons_iff.mp h
  have blank : ∀ c ∈ cs.takeWhile (isSpace ∘ some), (isSpace ∘ some) c = true :=
    fun c hc => List.mem_takeWhile_imp hc
  refine ⟨cs.takeWhile (isSpace ∘ some), c, rest, ?_, rfl, rfl, blank⟩
  rw [← behind, List.takeWhile_append_dropWhile]

/-- A text is one of its tokens if the last of them has an end. -/
theorem lexes_tokens {cs : List Char} (ended : ∀ t ∈ tokens (cs.map some), t.Ended) :
    Lexes cs (tokens (cs.map some)) := by
  generalize text : cs.map some = gs at ended ⊢
  fun_induction tokens gs generalizing cs with
  | case1 gs none =>
    subst text
    refine .nil fun c hc => ?_
    exact List.dropWhile_eq_nil_iff.mp none (some c) (List.mem_map_of_mem hc)
  | case2 gs g rest behind t rest' scan ih =>
    subst text
    obtain ⟨blanks, c, cs, rfl, rfl, rfl, blank⟩ := exists_of_dropWhile behind
    obtain ⟨word, more, same, rfl, spelled⟩ := exists_of_scanToken scan
    rw [same]
    exact .cons blank spelled (ih rfl (List.forall_mem_cons.mp ended).2)
  | case3 gs g rest behind t scan =>
    exact absurd (ended t (List.mem_singleton_self t)) (not_ended_of_scanToken scan)

theorem mem_tokensOfItems {t : Token} {rs : List Reading} {first : Bool}
    (h : t ∈ Reading.tokensOfItems rs first) : t = .comma ∨ ∃ r ∈ rs, t ∈ r.tokens := by
  induction rs generalizing first with
  | nil => cases h
  | cons r rs ih =>
    rw [Reading.tokensOfItems, List.mem_append, List.mem_append] at h
    rcases h with comma | own | later
    · cases first with
      | true => cases comma
      | false => exact .inl (List.mem_singleton.mp comma)
    · exact .inr ⟨r, List.mem_cons_self, own⟩
    · exact (ih later).imp_right fun ⟨r', hr, own⟩ => ⟨r', List.mem_cons_of_mem r hr, own⟩

theorem mem_tokensOfMembers {t : Token} {ms : List (Quoted × Reading)} {first : Bool}
    (h : t ∈ Reading.tokensOfMembers ms first) :
    t = .comma ∨ t = .colon ∨ ∃ m ∈ ms, t = .string m.1 ∨ t ∈ m.2.tokens := by
  induction ms generalizing first with
  | nil => cases h
  | cons m ms ih =>
    obtain ⟨key, r⟩ := m
    rw [Reading.tokensOfMembers, List.mem_append, List.mem_cons, List.mem_cons, List.mem_append] at h
    rcases h with comma | rfl | rfl | own | later
    · cases first with
      | true => cases comma
      | false => exact .inl (List.mem_singleton.mp comma)
    · exact .inr (.inr ⟨(key, r), List.mem_cons_self, .inl rfl⟩)
    · exact .inr (.inl rfl)
    · exact .inr (.inr ⟨(key, r), List.mem_cons_self, .inr own⟩)
    · refine (ih later).imp_right (.imp_right ?_)
      exact fun ⟨m, hm, own⟩ => ⟨m, List.mem_cons_of_mem _ hm, own⟩

/-- In a whole reading every token has been scanned to its end. -/
theorem Reading.Whole.ended {r : Reading} (whole : r.Whole) : ∀ t ∈ r.tokens, t.Ended := by
  induction whole with
  | null | bool b => exact List.forall_mem_singleton.mpr trivial
  | number exact | string exact => exact List.forall_mem_singleton.mpr rfl
  | array parts ih =>
    refine List.forall_mem_cons.mpr ⟨trivial, List.forall_mem_append.mpr ⟨fun t ht => ?_, ?_⟩⟩
    · rcases mem_tokensOfItems ht with rfl | ⟨r, hr, own⟩
      · trivial
      · exact ih r hr t own
    · exact List.forall_mem_singleton.mpr trivial
  | object keys parts ih =>
    refine List.forall_mem_cons.mpr ⟨trivial, List.forall_mem_append.mpr ⟨fun t ht => ?_, ?_⟩⟩
    · rcases mem_tokensOfMembers ht with rfl | rfl | ⟨m, hm, rfl | own⟩
      · trivial
      · trivial
      · exact keys m hm
      · exact ih m hm t own
    · exact List.forall_mem_singleton.mpr trivial

/-- A text that is read as a closed array or object with nothing behind it spells that. -/
theorem spells_of_document {text : String} (closed : (Document.ofText text).root.Closed)
    (bare : (Document.ofText text).trailing = false) : Spells text (Document.ofText text).root := by
  obtain ⟨whole, same⟩ := Document.tokens_of_ofTokens closed bare
  refine ⟨whole, ?_⟩
  have lexes := @lexes_tokens text.toList
  rw [same] at lexes
  exact lexes whole.ended

/-- The text of a value spells it. -/
theorem spells_text (j : Json) (numbers : ∀ n ∈ j.numbers, n.ReadsBack) : Spells j.text j.toReading := by
  have same := tokens_text j numbers
  have lexes := @lexes_tokens j.text.toList
  rw [same] at lexes
  exact ⟨whole_toReading j, lexes (whole_toReading j).ended⟩

/-! ### Texts piece by piece -/

namespace Lexes

variable {word cs : List Char} {t : Token} {ts : List Token}

/-- A token in front, without blanks before it. -/
theorem word_cons (spelled : t.Spelled word) (others : Lexes cs ts) : Lexes (word ++ cs) (t :: ts) :=
  @cons [] word cs t ts nofun spelled others

theorem quoted_cons (s : String) (others : Lexes cs ts) :
    Lexes (quotedChars s ++ cs) (.string ⟨.ok s, none⟩ :: ts) := by
  refine word_cons (.string ?_) others
  have scan := scanString_quoted s []
  rw [← List.map_singleton, ← List.map_append] at scan
  obtain ⟨word, rest, same, none, spelled⟩ := exists_of_scanString scan
  rw [List.map_eq_nil_iff.mp none.symm, List.append_nil] at same
  rwa [quotedChars, same]

end Lexes

end DeskScript.Json
