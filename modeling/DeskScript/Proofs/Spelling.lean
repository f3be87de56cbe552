import DeskScript.Json.Reading
import Mathlib.Tactic.Common

/-! The tokens of a reading that has nothing wrong with its brackets and marks. They are read as that
reading, and a document whose root is a closed array or object has been read from no other tokens. -/

namespace DeskScript.Json

/-! ### Whole readings -/

mutual

/-- The tokens of a reading. -/
def Reading.tokens : Reading → List Token
  | .null => [.literal (.ok .null)]
  | .bool b => [.literal (.ok (.bool b))]
  | .number exact skipped => [.number exact skipped]
  | .string q => [.string q]
  | .array items _ => .openArray :: (tokensOfItems items true ++ [.closeArray])
  | .object members _ => .openObject :: (tokensOfMembers members true ++ [.closeObject])
  | .broken _ => []

def Reading.tokensOfItems : List Reading → (first : Bool) → List Token
  | [], _ => []
  | r :: rs, first => (if first then [] else [.comma]) ++ (tokens r ++ tokensOfItems rs false)

def Reading.tokensOfMembers : List (Quoted × Reading) → (first : Bool) → List Token
  | [], _ => []
  | (key, r) :: ms, first =>
    (if first then [] else [.comma]) ++
      .string key :: .colon :: (tokens r ++ tokensOfMembers ms false)

end

namespace Reading

/-- Nothing is wrong in the reading for someone who passes over it. -/
inductive Whole : Reading → Prop
  | null : Whole .null
  | bool (b : Bool) : Whole (.bool b)
  | number (exact : Except Fault Number) : Whole (.number exact none)
  | string (exact : Except Fault String) : Whole (.string ⟨exact, none⟩)
  | array {items : List Reading} (parts : ∀ r ∈ items, Whole r) : Whole (.array items none)
  | object {members : List (Quoted × Reading)} (keys : ∀ m ∈ members, m.1.skipped = none)
      (parts : ∀ m ∈ members, Whole m.2) : Whole (.object members none)

/-- The reading is an array or object up to its own bracket. -/
def Closed : Reading → Prop
  | .array _ ending | .object _ ending => ending = none
  | _ => False

/-- The tokens of an item or member with the comma behind it. -/
def itemTokens (r : Reading) : List Token := r.tokens ++ [.comma]

def memberTokens (m : Quoted × Reading) : List Token := .string m.1 :: .colon :: (m.2.tokens ++ [.comma])

theorem tokensOfItems_false (r : Reading) (rs : List Reading) :
    tokensOfItems (r :: rs) false = .comma :: tokensOfItems (r :: rs) true := by
  simp [tokensOfItems]

theorem tokensOfMembers_false (m : Quoted × Reading) (ms : List (Quoted × Reading)) :
    tokensOfMembers (m :: ms) false = .comma :: tokensOfMembers (m :: ms) true := by
  simp [tokensOfMembers]

/-- Seen from the last item, every item before it has a comma behind it. -/
theorem tokensOfItems_concat (rs : List Reading) (last : Reading) :
    tokensOfItems (rs ++ [last]) true = rs.flatMap itemTokens ++ last.tokens := by
  induction rs with
  | nil => simp [tokensOfItems]
  | cons r rs ih =>
    obtain ⟨r', rs', next⟩ := List.exists_cons_of_ne_nil (List.append_ne_nil_of_right_ne_nil rs
      (List.cons_ne_nil last []))
    rw [next] at ih
    rw [List.cons_append, next, tokensOfItems, if_pos rfl, tokensOfItems_false, ih]
    simp [itemTokens]

theorem tokensOfMembers_concat (ms : List (Quoted × Reading)) (key : Quoted) (last : Reading) :
    tokensOfMembers (ms ++ [(key, last)]) true =
      ms.flatMap memberTokens ++ .string key :: .colon :: last.tokens := by
  induction ms with
  | nil => simp [tokensOfMembers]
  | cons m ms ih =>
    obtain ⟨m', ms', next⟩ := List.exists_cons_of_ne_nil (List.append_ne_nil_of_right_ne_nil ms
      (List.cons_ne_nil (key, last) []))
    rw [next] at ih
    rw [List.cons_append, next, tokensOfMembers, if_pos rfl, tokensOfMembers_false, ih]
    simp [memberTokens]

/-! ### Reading the tokens -/

/-- The first token of a value does not close the array that it is in. -/
theorem foldl_tokens_valueOrClose {r : Reading} (whole : r.Whole) (around : List Frame) :
    r.tokens.foldl Reader.step (.going (.array [] :: around) .valueOrClose) =
      r.tokens.foldl Reader.step (.going (.array [] :: around) .value) := by
  cases whole <;> rfl

mutual

/-- The tokens of a whole reading are read as that reading. -/
theorem foldl_tokens (r : Reading) (whole : r.Whole) (around : List Frame) :
    r.tokens.foldl Reader.step (.going around .value) = Reader.deliver around r := by
  cases r with
  | null | bool b => rfl
  | number exact skipped =>
    cases whole
    rfl
  | string q =>
    cases whole
    rfl
  | broken f => cases whole
  | array items ending =>
    obtain _ | _ | _ | _ | parts := whole
    cases items with
    | nil => rfl
    | cons r rs =>
      obtain ⟨first, others⟩ := List.forall_mem_cons.mp parts
      change ((r.tokens ++ tokensOfItems rs false) ++ [Token.closeArray]).foldl Reader.step
        (.going (.array [] :: around) .valueOrClose) = _
      rw [List.append_assoc, List.foldl_append, foldl_tokens_valueOrClose first, foldl_tokens r first]
      exact foldl_tokensOfItems rs others around [] r
  | object members ending =>
    obtain _ | _ | _ | _ | _ | ⟨keys, parts⟩ := whole
    cases members with
    | nil => rfl
    | cons m ms =>
      obtain ⟨⟨exact, skipped⟩, r⟩ := m
      obtain ⟨rfl, otherKeys⟩ := List.forall_mem_cons.mp keys
      obtain ⟨first, others⟩ := List.forall_mem_cons.mp parts
      change ((r.tokens ++ tokensOfMembers ms false) ++ [Token.closeObject]).foldl Reader.step
        (.going (.object [] ⟨exact, none⟩ :: around) .value) = _
      rw [List.append_assoc, List.foldl_append, foldl_tokens r first]
      exact foldl_tokensOfMembers ms otherKeys others around [] ⟨exact, none⟩ r

theorem foldl_tokensOfItems (rs : List Reading) (whole : ∀ r ∈ rs, r.Whole) (around : List Frame)
    (before : List Reading) (last : Reading) :
    (tokensOfItems rs false ++ [Token.closeArray]).foldl Reader.step
        (.going (.array before :: around) (.separator last)) =
      Reader.deliver around (.array ((last :: before).reverse ++ rs) none) := by
  cases rs with
  | nil =>
    rw [List.append_nil]
    rfl
  | cons r rs =>
    obtain ⟨first, others⟩ := List.forall_mem_cons.mp whole
    change ((r.tokens ++ tokensOfItems rs false) ++ [Token.closeArray]).foldl Reader.step
      (.going (.array (last :: before) :: around) .value) = _
    rw [List.append_assoc, List.foldl_append, foldl_tokens r first, Reader.deliver,
      foldl_tokensOfItems rs others]
    simp

theorem foldl_tokensOfMembers (ms : List (Quoted × Reading)) (keys : ∀ m ∈ ms, m.1.skipped = none)
    (whole : ∀ m ∈ ms, m.2.Whole) (around : List Frame) (before : List (Quoted × Reading)) (key : Quoted)
    (last : Reading) :
    (tokensOfMembers ms false ++ [Token.closeObject]).foldl Reader.step
        (.going (.object before key :: around) (.separator last)) =
      Reader.deliver around (.object (((key, last) :: before).reverse ++ ms) none) := by
  cases ms with
  | nil =>
    rw [List.append_nil]
    rfl
  | cons m ms =>
    obtain ⟨⟨exact, skipped⟩, r⟩ := m
    obtain ⟨rfl, otherKeys⟩ := List.forall_mem_cons.mp keys
    obtain ⟨first, others⟩ := List.forall_mem_cons.mp whole
    change ((r.tokens ++ tokensOfMembers ms false) ++ [Token.closeObject]).foldl Reader.step
      (.going (.object ((key, last) :: before) ⟨exact, none⟩ :: around) .value) = _
    rw [List.append_assoc, List.foldl_append, foldl_tokens r first, Reader.deliver,
      foldl_tokensOfMembers ms otherKeys others]
    simp

end

end Reading

/-- The tokens of a whole reading are a document of it. -/
theorem Document.ofTokens_tokens {r : Reading} (whole : r.Whole) : ofTokens r.tokens = ⟨r, false⟩ := by
  rw [ofTokens, Reading.foldl_tokens r whole]
  rfl

/-! ### Tokens that have been read -/

/-- The tokens from which an open array or object has been read. -/
def Frame.tokens : Frame → List Token
  | .array before => .openArray :: before.reverse.flatMap Reading.itemTokens
  | .object before key =>
    .openObject :: (before.reverse.flatMap Reading.memberTokens ++ [.string key, .colon])

/-- The tokens that have been read since the last array or object was opened for good. -/
def Awaited.tokens : Awaited → List Token
  | .value | .valueOrClose => []
  | .keyOrClose => [.openObject]
  | .key before => .openObject :: before.reverse.flatMap Reading.memberTokens
  | .colon before name => .openObject :: (before.reverse.flatMap Reading.memberTokens ++ [.string name])
  | .separator r | .nothing r => r.tokens

/-- Keys and values without a fault. -/
def Reading.WholeMembers (ms : List (Quoted × Reading)) : Prop :=
  ∀ m ∈ ms, m.1.skipped = none ∧ m.2.Whole

def Frame.Whole : Frame → Prop
  | .array before => ∀ r ∈ before, r.Whole
  | .object before key => Reading.WholeMembers before ∧ key.skipped = none

/-- What has been read last is whole, and a comma is awaited just where something is open. -/
def Awaited.Whole (around : List Frame) : Awaited → Prop
  | .value | .valueOrClose | .keyOrClose => True
  | .key before => Reading.WholeMembers before
  | .colon before name => Reading.WholeMembers before ∧ name.skipped = none
  | .separator r => r.Whole ∧ around ≠ []
  | .nothing r => r.Whole ∧ around = []

/-- The tokens `ts` are what the reader has in hand, or reading is over with a document that is no
closed array or object. -/
def Reader.Holds (ts : List Token) : Reader → Prop
  | .going around awaited =>
    ts = around.reverse.flatMap Frame.tokens ++ awaited.tokens ∧ (∀ f ∈ around, f.Whole) ∧
      awaited.Whole around
  | .over d => d.trailing = true ∨ ¬ d.root.Closed

namespace Reading

theorem WholeMembers.object {ms : List (Quoted × Reading)} (h : WholeMembers ms) :
    (Reading.object ms none).Whole :=
  .object (fun m hm => (h m hm).1) fun m hm => (h m hm).2

theorem WholeMembers.cons {before : List (Quoted × Reading)} {key : Quoted} {r : Reading}
    (h : WholeMembers before) (own : key.skipped = none) (whole : r.Whole) :
    WholeMembers ((key, r) :: before) :=
  List.forall_mem_cons.mpr ⟨⟨own, whole⟩, h⟩

theorem WholeMembers.reverse {before : List (Quoted × Reading)} (h : WholeMembers before) :
    WholeMembers before.reverse :=
  fun m hm => h m (List.mem_reverse.mp hm)

end Reading

namespace Reader

variable {around : List Frame} {r : Reading} {ts : List Token} {t : Token}

/-- What is put into open arrays and objects leaves none of them closed. -/
theorem not_closed_unwind (h : ¬ r.Closed) : ¬ (unwind around r).Closed := by
  induction around generalizing r with
  | nil => exact h
  | cons frame around ih => cases frame <;> exact ih nofun

theorem holds_stop (h : ¬ r.Closed) : (stop around r).Holds ts := .inr (not_closed_unwind h)

/-- Reading that ends inside an array or object leaves it open. -/
theorem exists_cut (inside : around ≠ []) (r : Reading) (f : Fault) :
    ∃ d, cut around r f = .over d ∧ ¬ d.root.Closed := by
  obtain _ | ⟨_ | _, around⟩ := around
  · exact absurd rfl inside
  · exact ⟨_, rfl, not_closed_unwind nofun⟩
  · exact ⟨_, rfl, not_closed_unwind nofun⟩

/-- A whole value is held by those around it. -/
theorem holds_deliver (held : ∀ f ∈ around, f.Whole) (whole : r.Whole) :
    (deliver around r).Holds (around.reverse.flatMap Frame.tokens ++ r.tokens) := by
  cases around with
  | nil => exact ⟨rfl, held, whole, rfl⟩
  | cons frame around => exact ⟨rfl, held, whole, List.cons_ne_nil _ _⟩

theorem holds_stepValue (held : ∀ f ∈ around, f.Whole) :
    (stepValue around t).Holds (around.reverse.flatMap Frame.tokens ++ [t]) := by
  unfold stepValue
  split
  · refine ⟨?_, List.forall_mem_cons.mpr ⟨List.forall_mem_nil _, held⟩, trivial⟩
    simp [Frame.tokens, Awaited.tokens]
  · exact ⟨rfl, held, trivial⟩
  · exact holds_deliver held .null
  · exact holds_deliver held (.bool _)
  · exact holds_stop nofun
  · exact holds_deliver held (.number _)
  · exact holds_stop nofun
  · exact holds_deliver held (.string _)
  · exact holds_stop nofun
  · exact holds_stop nofun

theorem holds_stepKey {before : List (Quoted × Reading)} (held : ∀ f ∈ around, f.Whole)
    (own : Reading.WholeMembers before) :
    (stepKey around before t).Holds (around.reverse.flatMap Frame.tokens ++
      .openObject :: (before.reverse.flatMap Reading.memberTokens ++ [t])) := by
  unfold stepKey
  split
  · exact ⟨rfl, held, own, rfl⟩
  · exact holds_stop nofun
  · exact holds_stop nofun

/-- An array is closed behind its last item. -/
theorem tokens_array (before : List Reading) (r : Reading) :
    (Reading.array (r :: before).reverse none).tokens =
      Frame.tokens (.array before) ++ (r.tokens ++ [.closeArray]) := by
  rw [List.reverse_cons, Reading.tokens, Reading.tokensOfItems_concat]
  simp [Frame.tokens]

theorem tokens_object (before : List (Quoted × Reading)) (key : Quoted) (r : Reading) :
    (Reading.object ((key, r) :: before).reverse none).tokens =
      Frame.tokens (.object before key) ++ (r.tokens ++ [.closeObject]) := by
  rw [List.reverse_cons, Reading.tokens, Reading.tokensOfMembers_concat]
  simp [Frame.tokens]

theorem holds_stepSeparator (held : ∀ f ∈ around, f.Whole) (whole : r.Whole) (inside : around ≠ []) :
    (stepSeparator around r t).Holds (around.reverse.flatMap Frame.tokens ++ (r.tokens ++ [t])) := by
  unfold stepSeparator
  split
  case h_5 =>
    obtain ⟨d, ended, notClosed⟩ := exists_cut inside r .malformed
    rw [ended]
    exact .inr notClosed
  all_goals obtain ⟨own, others⟩ := List.forall_mem_cons.mp held
  case h_1 before around =>
    refine ⟨?_, List.forall_mem_cons.mpr ⟨List.forall_mem_cons.mpr ⟨whole, own⟩, others⟩, trivial⟩
    simp [Frame.tokens, Awaited.tokens, Reading.itemTokens]
  case h_2 before around =>
    have all : ∀ r' ∈ (r :: before).reverse, r'.Whole := fun r' h' =>
      List.forall_mem_cons.mpr ⟨whole, own⟩ r' (List.mem_reverse.mp h')
    have next := holds_deliver others (.array all)
    rw [tokens_array] at next
    simpa using next
  case h_3 before key around =>
    refine ⟨?_, others, own.1.cons own.2 whole⟩
    simp [Frame.tokens, Awaited.tokens, Reading.memberTokens]
  case h_4 before key around =>
    have next := holds_deliver others (own.1.cons own.2 whole).reverse.object
    rw [tokens_object] at next
    simpa using next

/-- Each token is added to what the reader has in hand. -/
theorem holds_step {s : Reader} (hs : s.Holds ts) (t : Token) : (s.step t).Holds (ts ++ [t]) := by
  unfold step
  split
  case h_1 => exact hs
  all_goals obtain ⟨rfl, held, last⟩ := hs
  case h_2 => simpa [Awaited.tokens] using holds_stepValue held
  case h_3 around =>
    have next := holds_deliver (List.forall_mem_cons.mp held).2 (.array (List.forall_mem_nil _))
    simpa [Awaited.tokens, Frame.tokens, Reading.tokens, Reading.tokensOfItems] using next
  case h_4 => simpa [Awaited.tokens] using holds_stepValue held
  case h_5 around =>
    have next := holds_deliver held (.object (List.forall_mem_nil _) (List.forall_mem_nil _))
    simpa [Awaited.tokens, Reading.tokens, Reading.tokensOfMembers] using next
  case h_6 => simpa [Awaited.tokens] using holds_stepKey held (List.forall_mem_nil _)
  case h_7 => simpa [Awaited.tokens] using holds_stepKey held last
  case h_8 before key =>
    refine ⟨?_, List.forall_mem_cons.mpr ⟨last, held⟩, trivial⟩
    simp [Awaited.tokens, Frame.tokens]
  case h_9 => exact holds_stop nofun
  case h_10 => simpa [Awaited.tokens] using holds_stepSeparator held last.1 last.2
  case h_11 => exact .inl rfl

theorem holds_foldl {s : Reader} (us : List Token) (hs : s.Holds ts) :
    (us.foldl step s).Holds (ts ++ us) := by
  induction us generalizing s ts with
  | nil => rwa [List.append_nil]
  | cons u us ih =>
    have next := ih (holds_step hs u)
    rwa [List.append_assoc, List.singleton_append] at next

/-- A closed array or object with nothing behind it is the whole of what has been read. -/
theorem tokens_of_finish {s : Reader} (hs : s.Holds ts) (closed : s.finish.root.Closed)
    (bare : s.finish.trailing = false) : s.finish.root.Whole ∧ ts = s.finish.root.tokens := by
  match s, hs, closed, bare with
  | .over _, ended, closed, bare =>
    exact absurd closed (ended.resolve_left fun more => Bool.false_ne_true (bare.symm.trans more))
  | .going around awaited, hs, closed, _ =>
    obtain ⟨rfl, held, last⟩ := hs
    cases awaited with
    | nothing r =>
      obtain ⟨whole, rfl⟩ := last
      exact ⟨whole, rfl⟩
    | separator r =>
      obtain ⟨d, ended, notClosed⟩ := exists_cut last.2 r .truncated
      simp only [finish, ended] at closed
      exact absurd closed notClosed
    | value | valueOrClose | keyOrClose | key before | colon before name =>
      exact absurd closed (not_closed_unwind nofun)

end Reader

/-- A document whose root is a closed array or object has been read from the tokens of the root. -/
theorem Document.tokens_of_ofTokens {ts : List Token} (closed : (ofTokens ts).root.Closed)
    (bare : (ofTokens ts).trailing = false) :
    (ofTokens ts).root.Whole ∧ ts = (ofTokens ts).root.tokens := by
  have start : (Reader.going [] .value).Holds [] := ⟨rfl, List.forall_mem_nil _, trivial⟩
  exact Reader.tokens_of_finish (Reader.holds_foldl ts start) closed bare

end DeskScript.Json
