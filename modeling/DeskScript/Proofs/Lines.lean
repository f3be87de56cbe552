import DeskScript.Command
import DeskScript.Proofs.Utf8
import Mathlib.Data.List.TakeWhile

/-! Commands on lines: each line is read by itself, up to the first that is no text. -/

namespace DeskScript

namespace Command

variable {a b bytes line rest : List UInt8} {c : Command} {text : String}

/-! ### Lines -/

/-- The lines of the bytes, without the line feeds between them. -/
def lines (bytes : List UInt8) : List (List UInt8) := bytes.splitOn 0x0A

/-- The bytes are a text in UTF-8. -/
def IsText (bytes : List UInt8) : Prop := bytes.toByteArray.IsValidUTF8

instance : DecidablePred IsText := fun _ => decidable_of_iff _ Text.isSome_ofUtf8?

/-- The command on a line. -/
def ofLine? (line : List UInt8) : Option Command := (Text.ofUtf8? line).bind ofText?

theorem lines_append (a b : List UInt8) : lines (a ++ 0x0A :: b) = lines a ++ lines b :=
  List.splitOnP_append_cons a b rfl

theorem bne_of_not_mem (whole : 0x0A ∉ line) : ∀ b ∈ line, (b != 0x0A) = true := by
  intro b mem
  simpa using ne_of_mem_of_not_mem mem whole

theorem lines_of_not_mem (whole : 0x0A ∉ line) : lines line = [line] :=
  List.splitOnP_eq_singleton fun b mem => by simpa using bne_of_not_mem whole b mem

/-- What holds of bytes without a line feed, and of bytes if it holds of those after their first line,
holds of all. -/
theorem lines_induction {P : List UInt8 → Prop} (last : ∀ line, 0x0A ∉ line → P line)
    (more : ∀ line rest, 0x0A ∉ line → P rest → P (line ++ 0x0A :: rest)) (bytes : List UInt8) :
    P bytes := by
  induction n : bytes.length using Nat.strongRecOn generalizing bytes with
  | ind n ih =>
    subst n
    by_cases feed : 0x0A ∈ bytes
    · obtain ⟨line, rest, rfl, whole⟩ := List.eq_append_cons_of_mem feed
      exact more line rest whole (ih _ (by simp; omega) rest rfl)
    · exact last bytes feed

/-! ### The commands on them -/

theorem splitLine_append (whole : 0x0A ∉ line) (rest : List UInt8) :
    splitLine (line ++ 0x0A :: rest) = (line, rest) := by
  have other := bne_of_not_mem whole
  rw [splitLine, List.takeWhile_append_of_pos other, List.dropWhile_append_of_pos other]
  simp

theorem splitLine_of_not_mem (whole : 0x0A ∉ line) : splitLine line = (line, []) := by
  have other := bne_of_not_mem whole
  rw [splitLine, List.takeWhile_eq_self_iff.mpr other, List.dropWhile_eq_nil_iff.mpr other]
  rfl

theorem ofLine?_of_not_isText (h : ¬ IsText line) : ofLine? line = none := by
  rw [IsText, ← Text.isSome_ofUtf8?, Option.not_isSome_iff_eq_none] at h
  rw [ofLine?, h]
  rfl

@[simp] theorem ofBytes_nil : ofBytes [] = [] := by rw [ofBytes]

theorem isText_nil : IsText [] := ByteArray.isValidUTF8_empty

theorem ofLine?_nil : ofLine? [] = none := by
  have read : Text.ofUtf8? [] = some "" := Text.ofUtf8?_eq_some_iff.mpr rfl
  rw [ofLine?, read]
  decide

theorem ofBytes_eq_ite (bytes : List UInt8) : ofBytes bytes =
    if IsText (splitLine bytes).1 then
      (ofLine? (splitLine bytes).1).toList ++ ofBytes (splitLine bytes).2
    else [] := by
  cases bytes with
  | nil =>
    change _ = if IsText [] then (ofLine? []).toList ++ ofBytes [] else []
    rw [ofBytes_nil, if_pos isText_nil, ofLine?_nil]
    rfl
  | cons b bytes =>
    rw [ofBytes]
    cases read : Text.ofUtf8? (splitLine (b :: bytes)).1 with
    | none =>
      have other : ¬ IsText (splitLine (b :: bytes)).1 := by
        rw [IsText, ← Text.isSome_ofUtf8?, read]
        simp
      rw [if_neg other]
    | some text =>
      have valid : IsText (splitLine (b :: bytes)).1 := by
        rw [IsText, ← Text.isSome_ofUtf8?, read]
        rfl
      rw [if_pos valid, ofLine?, read, Option.bind_some]

theorem ofBytes_of_not_mem (whole : 0x0A ∉ line) : ofBytes line = (ofLine? line).toList := by
  rw [ofBytes_eq_ite, splitLine_of_not_mem whole, ofBytes_nil, List.append_nil]
  split
  case isTrue => rfl
  case isFalse other => rw [ofLine?_of_not_isText other, Option.toList_none]

theorem ofBytes_line_append (whole : 0x0A ∉ line) (rest : List UInt8) :
    ofBytes (line ++ 0x0A :: rest) =
      if IsText line then (ofLine? line).toList ++ ofBytes rest else [] := by
  have first := ofBytes_eq_ite (line ++ 0x0A :: rest)
  rwa [splitLine_append whole] at first

/-- The commands are those on the lines before the first that is no text, in their order. -/
theorem ofBytes_eq (bytes : List UInt8) :
    ofBytes bytes = ((lines bytes).takeWhile fun line => IsText line).filterMap ofLine? := by
  induction bytes using lines_induction with
  | last line whole =>
    rw [ofBytes_of_not_mem whole, lines_of_not_mem whole]
    by_cases valid : IsText line
    · rw [List.takeWhile_cons_of_pos (by simpa using valid), List.takeWhile_nil, List.filterMap_cons]
      cases ofLine? line <;> rfl
    · rw [List.takeWhile_cons_of_neg (by simpa using valid), ofLine?_of_not_isText valid]
      rfl
  | more line rest whole ih =>
    rw [ofBytes_line_append whole, lines_append, lines_of_not_mem whole, List.singleton_append]
    by_cases valid : IsText line
    · rw [if_pos valid, List.takeWhile_cons_of_pos (by simpa using valid), List.filterMap_cons, ih]
      cases ofLine? line <;> rfl
    · rw [if_neg valid, List.takeWhile_cons_of_neg (by simpa using valid)]
      rfl

theorem ofBytes_append_of_isText (valid : ∀ line ∈ lines a, IsText line) (b : List UInt8) :
    ofBytes (a ++ 0x0A :: b) = ofBytes a ++ ofBytes b := by
  have all : ∀ line ∈ lines a, decide (IsText line) = true := by simpa using valid
  rw [ofBytes_eq, ofBytes_eq, ofBytes_eq, lines_append, List.takeWhile_append_of_pos all,
    List.takeWhile_eq_self_iff.mpr all, List.filterMap_append]

theorem ofBytes_append_of_not_isText (other : ¬ ∀ line ∈ lines a, IsText line) (b : List UInt8) :
    ofBytes (a ++ 0x0A :: b) = ofBytes a := by
  rw [ofBytes_eq, ofBytes_eq, lines_append, List.takeWhile_append, if_neg]
  intro whole
  have same := (List.takeWhile_prefix _).eq_of_length whole
  exact other (by simpa using List.takeWhile_eq_self_iff.mp same)

/-! ### What makes no difference -/

theorem ofText?_push_return (text : String) : ofText? (text.push '\r') = ofText? text := by
  have same : Text.trim (text.push '\r') = Text.trim text := by
    have ends := Text.trim_append_blank (rfl : Text.allBlank "" = true)
      (by decide : Text.allBlank "\r" = true) text
    rwa [String.empty_append] at ends
  rw [ofText?, normalized, same, ofText?, normalized]

/-- A carriage return at the end of a line changes neither whether it is a text nor its command. -/
theorem isText_push_return : IsText (line ++ [0x0D]) ↔ IsText line := by
  rw [IsText, ← Text.isSome_ofUtf8?, IsText, ← Text.isSome_ofUtf8?]
  have read : Text.ofUtf8? (line ++ [0x0D]) = _ := Text.ofUtf8?_concat (c := '\r') (by decide) line
  rw [read, Option.isSome_map]

theorem ofLine?_push_return (line : List UInt8) : ofLine? (line ++ [0x0D]) = ofLine? line := by
  have read : Text.ofUtf8? (line ++ [0x0D]) = _ := Text.ofUtf8?_concat (c := '\r') (by decide) line
  rw [ofLine?, read, Option.bind_map, ofLine?]
  simp only [Function.comp_def, ofText?_push_return]

theorem ofBytes_append_return (a b : List UInt8) :
    ofBytes (a ++ 0x0D :: 0x0A :: b) = ofBytes (a ++ 0x0A :: b) := by
  induction a using lines_induction with
  | last line whole =>
    have whole' : 0x0A ∉ line ++ [0x0D] := by simp [whole]
    have returned := ofBytes_line_append whole' b
    rw [List.append_assoc, List.singleton_append] at returned
    rw [returned, ofBytes_line_append whole, ofLine?_push_return]
    simp only [isText_push_return]
  | more line rest whole ih =>
    rw [List.append_assoc, List.append_assoc, List.cons_append, List.cons_append,
      ofBytes_line_append whole, ofBytes_line_append whole, ih]

theorem ofText?_of_allBlank (blank : Text.allBlank text = true) : ofText? text = none := by
  rw [ofText?, normalized, Text.allBlank_iff_trim_eq_empty.mp blank]
  decide

theorem ofBytes_skip (whole : 0x0A ∉ line) (valid : IsText line) (none : ofLine? line = none)
    (b : List UInt8) : ofBytes (line ++ 0x0A :: b) = ofBytes b := by
  rw [ofBytes_line_append whole, if_pos valid, none]
  rfl

end Command

end DeskScript
