import DeskScript.Proofs.Numerals
import DeskScript.Proofs.Spelling

/-! Written JSON values are read back: what a text says is the value that it was written for, as far as
its numbers are read back one by one. -/

namespace DeskScript.Json

/-! ### Numbers -/

mutual

/-- The numbers in a value. -/
def numbers : Json → List Number
  | .null | .bool _ | .string _ => []
  | .number n => [n]
  | .array items => numbersOfItems items
  | .object members => numbersOfMembers members

def numbersOfItems : List Json → List Number
  | [] => []
  | j :: js => numbers j ++ numbersOfItems js

def numbersOfMembers : List (String × Json) → List Number
  | [] => []
  | (_, j) :: ms => numbers j ++ numbersOfMembers ms

end

theorem numbersOfMembers_append (ms ms' : List (String × Json)) :
    numbersOfMembers (ms ++ ms') = numbersOfMembers ms ++ numbersOfMembers ms' := by
  induction ms with
  | nil => rfl
  | cons m ms ih => rw [List.cons_append, numbersOfMembers, numbersOfMembers, ih, List.append_assoc]

theorem numbersOfItems_strings (ss : List String) : numbersOfItems (ss.map .string) = [] := by
  induction ss with
  | nil => rfl
  | cons s ss ih => rw [List.map_cons, numbersOfItems, ih, numbers, List.append_nil]

/-! ### Values -/

mutual

/-- The tokens of a value. -/
def spelling : Json → List Token
  | .null => [.literal (.ok .null)]
  | .bool b => [.literal (.ok (.bool b))]
  | .number n => [.number (.ok n) none]
  | .string s => [.string ⟨.ok s, none⟩]
  | .array items => .openArray :: (spellingOfItems items true ++ [.closeArray])
  | .object members => .openObject :: (spellingOfMembers members true ++ [.closeObject])

def spellingOfItems : List Json → (first : Bool) → List Token
  | [], _ => []
  | j :: js, first => (if first then [] else [.comma]) ++ (spelling j ++ spellingOfItems js false)

def spellingOfMembers : List (String × Json) → (first : Bool) → List Token
  | [], _ => []
  | (key, j) :: ms, first =>
    (if first then [] else [.comma]) ++
      .string ⟨.ok key, none⟩ :: .colon :: (spelling j ++ spellingOfMembers ms false)

end

theorem ends_writeItems (js : List Json) {rest : List Char} (ends : Ends (rest.map some)) :
    Ends ((writeItems js false rest).map some) := by
  cases js with
  | nil => exact ends
  | cons j js =>
    intro g hg
    cases hg
    exact .inl rfl

theorem ends_writeMembers (ms : List (String × Json)) {rest : List Char} (ends : Ends (rest.map some)) :
    Ends ((writeMembers ms false rest).map some) := by
  cases ms with
  | nil => exact ends
  | cons m ms =>
    intro g hg
    cases hg
    exact .inl rfl

mutual

/-- The text of a value is read as its tokens. -/
theorem tokens_write (j : Json) (numbers : ∀ n ∈ j.numbers, n.ReadsBack) {rest : List Char}
    (ends : Ends (rest.map some)) :
    tokens ((write j rest).map some) = j.spelling ++ tokens (rest.map some) := by
  cases j with
  | null => exact tokens_of_scan rfl rfl
  | bool b => cases b <;> exact tokens_of_scan rfl rfl
  | number n =>
    rw [write, List.map_append]
    exact (numbers n (List.mem_singleton.mpr rfl)).tokens_chars ends
  | string s =>
    rw [write, List.map_append]
    exact tokens_quotedChars s _
  | array items =>
    have close : Ends ((']' :: rest).map some) := by
      intro g hg
      cases hg
      exact .inr (.inl rfl)
    have last : tokens ((']' :: rest).map some) = .closeArray :: tokens (rest.map some) :=
      tokens_of_scan rfl rfl
    have inside := tokens_writeItems items true numbers close
    rw [last] at inside
    rw [write, spelling, List.map_cons, tokens_of_scan (t := .openArray) rfl rfl, inside]
    simp
  | object members =>
    have close : Ends (('\x7d' :: rest).map some) := by
      intro g hg
      cases hg
      exact .inr (.inr rfl)
    have last : tokens (('\x7d' :: rest).map some) = .closeObject :: tokens (rest.map some) :=
      tokens_of_scan rfl rfl
    have inside := tokens_writeMembers members true numbers close
    rw [last] at inside
    rw [write, spelling, List.map_cons, tokens_of_scan (t := .openObject) rfl rfl, inside]
    simp

theorem tokens_writeItems (js : List Json) (first : Bool)
    (numbers : ∀ n ∈ numbersOfItems js, n.ReadsBack) {rest : List Char} (ends : Ends (rest.map some)) :
    tokens ((writeItems js first rest).map some) =
      spellingOfItems js first ++ tokens (rest.map some) := by
  cases js with
  | nil => rfl
  | cons j js =>
    have head := tokens_write j (fun n hn => numbers n (List.mem_append_left _ hn))
      (ends_writeItems js ends)
    have others := tokens_writeItems js false (fun n hn => numbers n (List.mem_append_right _ hn)) ends
    rw [others] at head
    rw [writeItems, spellingOfItems]
    cases first with
    | true => simp [head]
    | false =>
      rw [if_neg Bool.false_ne_true, List.map_cons, tokens_of_scan (t := .comma) rfl rfl, head]
      simp

theorem tokens_writeMembers (ms : List (String × Json)) (first : Bool)
    (numbers : ∀ n ∈ numbersOfMembers ms, n.ReadsBack) {rest : List Char} (ends : Ends (rest.map some)) :
    tokens ((writeMembers ms first rest).map some) =
      spellingOfMembers ms first ++ tokens (rest.map some) := by
  cases ms with
  | nil => rfl
  | cons m ms =>
    obtain ⟨key, j⟩ := m
    have head := tokens_write j (fun n hn => numbers n (List.mem_append_left _ hn))
      (ends_writeMembers ms ends)
    have others := tokens_writeMembers ms false (fun n hn => numbers n (List.mem_append_right _ hn)) ends
    rw [others] at head
    have pair : tokens ((quotedChars key ++ ':' :: write j (writeMembers ms false rest)).map some) =
        .string ⟨.ok key, none⟩ :: .colon ::
          (j.spelling ++ (spellingOfMembers ms false ++ tokens (rest.map some))) := by
      rw [List.map_append, tokens_quotedChars, List.map_cons, tokens_of_scan (t := .colon) rfl rfl, head]
    rw [writeMembers, spellingOfMembers]
    cases first with
    | true =>
      rw [if_pos rfl, pair]
      simp
    | false =>
      rw [if_neg Bool.false_ne_true, List.map_cons, tokens_of_scan (t := .comma) rfl rfl, pair]
      simp

end

/-! ### Reading -/

mutual

/-- The tokens of a value are those of the reading that says the same. -/
theorem tokens_toReading (j : Json) : j.toReading.tokens = j.spelling := by
  cases j with
  | null | bool b | number n | string s => rfl
  | array items => rw [toReading, Reading.tokens, tokensOfItems_toReadings items, spelling]
  | object members => rw [toReading, Reading.tokens, tokensOfMembers_toMemberReadings members, spelling]

theorem tokensOfItems_toReadings (js : List Json) (first : Bool) :
    Reading.tokensOfItems (toReadings js) first = spellingOfItems js first := by
  cases js with
  | nil => rfl
  | cons j js =>
    rw [toReadings, Reading.tokensOfItems, tokens_toReading j, tokensOfItems_toReadings js, spellingOfItems]

theorem tokensOfMembers_toMemberReadings (ms : List (String × Json)) (first : Bool) :
    Reading.tokensOfMembers (toMemberReadings ms) first = spellingOfMembers ms first := by
  cases ms with
  | nil => rfl
  | cons m ms =>
    obtain ⟨key, j⟩ := m
    rw [toMemberReadings, Reading.tokensOfMembers, tokens_toReading j, tokensOfMembers_toMemberReadings ms,
      spellingOfMembers]

end

mutual

theorem whole_toReading (j : Json) : j.toReading.Whole := by
  cases j with
  | null => exact .null
  | bool b => exact .bool b
  | number n => exact .number _
  | string s => exact .string _
  | array items => exact .array (whole_toReadings items)
  | object members => exact (whole_toMemberReadings members).object

theorem whole_toReadings (js : List Json) : ∀ r ∈ toReadings js, r.Whole := by
  cases js with
  | nil => exact List.forall_mem_nil _
  | cons j js => exact List.forall_mem_cons.mpr ⟨whole_toReading j, whole_toReadings js⟩

theorem whole_toMemberReadings (ms : List (String × Json)) : Reading.WholeMembers (toMemberReadings ms) := by
  cases ms with
  | nil => exact List.forall_mem_nil _
  | cons m ms =>
    obtain ⟨key, j⟩ := m
    exact (whole_toMemberReadings ms).cons rfl (whole_toReading j)

end

theorem tokens_text (j : Json) (numbers : ∀ n ∈ j.numbers, n.ReadsBack) :
    tokens (j.text.toList.map some) = j.toReading.tokens := by
  have ends : Ends (([] : List Char).map some) := by
    intro g hg
    cases hg
  have written := tokens_write j numbers ends
  have none : tokens [] = [] := tokens_of_space rfl
  rw [List.map_nil, none, List.append_nil] at written
  rw [text, String.toList_ofList, written, tokens_toReading]

/-- The text of a value is read as that value, if its numbers are read back one by one. -/
theorem Document.ofText_text (j : Json) (numbers : ∀ n ∈ j.numbers, n.ReadsBack) :
    Document.ofText j.text = ⟨j.toReading, false⟩ := by
  rw [ofText, tokens_text j numbers, ofTokens_tokens (whole_toReading j)]

end DeskScript.Json
